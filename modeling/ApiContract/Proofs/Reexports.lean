import ApiContract.Proofs.Imports

namespace ApiContract.SourceTree

open Source

variable {tree : SourceTree}

/-- Locating the name asks this scope for this type. -/
structure Asks (tree : SourceTree) (name : String) (scope : Scope) (type : String) : Prop where
  isType : namesModule type = false
  inModule : ∃ modules, belowRoot name = modules ++ [type] ∧ tree.scopeOf name modules = .ok scope

/-- The module of a name does not define it, and the last import of it there leads to another
name. -/
inductive Reexports (tree : SourceTree) (name : String) : String → Prop where
  | intro {scope : Scope} {type : String} {before after : List (List String × String)}
      {written path : List String} (hasks : tree.Asks name scope type)
      (hdefines : scope.defines type = false)
      (himport : Item.bindings scope.items = before ++ (written, type) :: after)
      (hlast : type ∉ after.map Prod.snd) (hleads : Imports.LeadsTo scope.module written path) :
      Reexports tree name (Name.join path)

/-- So many imports lead from one name to another. -/
inductive Chain (tree : SourceTree) : Nat → String → String → Prop where
  | here (name : String) : Chain tree 0 name name
  | next {count : Nat} {name other last : String} (hfirst : tree.Reexports name other)
    (hrest : Chain tree count other last) : Chain tree (count + 1) name last

theorem locateWithin_of_asks {name type : String} {scope : Scope} (h : tree.Asks name scope type)
    (imports : Nat) : tree.locateWithin name (imports + 1) =
    if scope.defines type then .ok ⟨scope, .type type, scope.moduleName ++ "::" ++ type⟩
      else
        let missing := Failure.sourceUnavailable name
          (Failure.marked type ++ " is not defined in " ++ scope.path)
        match scope.alias? type with
        | some meaning =>
          if meaning = name then .error missing else tree.locateWithin meaning imports
        | none => .error missing := by
  obtain ⟨modules, hplace, hscope⟩ := h.inModule
  rw [locateWithin_succ, hplace]
  simp only [List.getLast?_concat, h.isType, List.dropLast_concat, hscope]
  rfl

theorem locateWithin_of_defines {name type : String} {scope : Scope} (h : tree.Asks name scope type)
    (hdefines : scope.defines type = true) (imports : Nat) : tree.locateWithin name (imports + 1) =
    .ok ⟨scope, .type type, scope.moduleName ++ "::" ++ type⟩ := by
  rw [locateWithin_of_asks h, if_pos hdefines]

/-- One import is followed, unless it leads to the name that it is written for. -/
theorem locateWithin_of_reexports {name other : String} (h : tree.Reexports name other)
    (imports : Nat) : ∃ reason, tree.locateWithin name (imports + 1) =
      if other = name then .error (.sourceUnavailable name reason)
      else tree.locateWithin other imports := by
  cases h with
  | @intro scope type before after written path hasks hdefines himport hlast hleads =>
    obtain ⟨modules, -, hscope⟩ := hasks.inModule
    have halias : scope.alias? type = some (Name.join path) := by
      rw [(scopeOf_ok hscope).1]
      exact Imports.get?_ofItems himport hlast hleads
    refine ⟨Failure.marked type ++ " is not defined in " ++ scope.path, ?_⟩
    rw [locateWithin_of_asks hasks, hdefines, halias]
    rfl

theorem not_locateWithin_of_reexports_self {name : String} (h : tree.Reexports name name)
    (imports : Nat) (found : Located) : tree.locateWithin name imports ≠ .ok found := by
  cases imports with
  | zero => exact nofun
  | succ imports =>
    obtain ⟨reason, hstep⟩ := locateWithin_of_reexports h imports
    rw [hstep, if_pos rfl]
    exact nofun

/-- A chain is followed to its end, and what is found there is found under the first name. -/
theorem Chain.locateWithin {count imports : Nat} {name last : String} {found : Located}
    (h : tree.Chain count name last) (hfound : tree.locateWithin last imports = .ok found) :
    tree.locateWithin name (imports + count) = .ok found := by
  induction h with
  | here => exact hfound
  | @next count name other last hfirst hrest ih =>
    obtain ⟨reason, hstep⟩ := locateWithin_of_reexports hfirst (imports + count)
    by_cases hself : other = name
    · subst hself
      -- an import of a name under itself is followed nowhere, so nothing is found under it
      exact absurd (ih hfound) (not_locateWithin_of_reexports_self hfirst _ found)
    · rw [← Nat.add_assoc, hstep, if_neg hself, ih hfound]

theorem Chain.not_locateWithin {count : Nat} {name last : String} (h : tree.Chain count name last) :
    ∀ imports ≤ count, ∃ missing reason,
      tree.locateWithin name imports = .error (.sourceUnavailable missing reason) := by
  induction h with
  | here name =>
    intro imports hle
    obtain rfl := Nat.le_zero.mp hle
    exact ⟨name, _, rfl⟩
  | @next count name other last hfirst hrest ih =>
    intro imports hle
    cases imports with
    | zero => exact ⟨name, _, rfl⟩
    | succ imports =>
      obtain ⟨reason, hstep⟩ := locateWithin_of_reexports hfirst imports
      rw [hstep]
      split
      · exact ⟨name, reason, rfl⟩
      · exact ih imports (Nat.le_of_succ_le_succ hle)

theorem Chain.trans {count more : Nat} {name other last : String} (h : tree.Chain count name other)
    (h' : tree.Chain more other last) : tree.Chain (more + count) name last := by
  induction h with
  | here => exact h'
  | next hfirst _ ih => exact .next hfirst (ih h')

theorem Chain.replicate {count : Nat} {name : String} (h : tree.Chain count name name)
    (times : Nat) : tree.Chain (times * count) name name := by
  induction times with
  | zero =>
    rw [Nat.zero_mul]
    exact .here name
  | succ times ih =>
    rw [Nat.succ_mul]
    exact h.trans ih

/-- A name that is imported is located where the chain of its imports ends, if this has at most as
many links as are followed. A longer chain, and one that runs into a cycle, leads nowhere. -/
theorem locate_of_chain {count : Nat} {name last : String} (h : tree.Chain count name last) :
    (count ≤ importLimit → ∀ scope type, tree.Asks last scope type → scope.defines type = true →
      tree.locate name = .ok ⟨scope, .type type, scope.moduleName ++ "::" ++ type⟩) ∧
    (importLimit < count ∨ (∃ round, 0 < round ∧ tree.Chain round last last) →
      ∃ missing reason, tree.locate name = .error (.sourceUnavailable missing reason)) := by
  constructor
  · intro hle scope type hasks hdefines
    have hend := locateWithin_of_defines hasks hdefines (importLimit - count)
    have hfuel : importLimit - count + 1 + count = importLimit + 1 := by omega
    rw [locate, ← hfuel]
    exact h.locateWithin hend
  · rintro (hlong | ⟨round, hpos, hcycle⟩)
    · exact h.not_locateWithin _ hlong
    · have hlong : importLimit + 1 ≤ (importLimit + 1) * round + count :=
        Nat.le_add_right_of_le (Nat.le_mul_of_pos_right _ hpos)
      exact (h.trans (hcycle.replicate (importLimit + 1))).not_locateWithin _ hlong

def renamed : SourceTree where
  files := .directory [("src", .directory [("lib.rs",
    .file (some "mod m { struct T; } mod n { use crate::m::T as A; }"))])]
  root := "src"

theorem exists_ok_of_any {α ε : Type} {result : Except ε α} {p : α → Bool}
    (h : result.toOption.any p = true) : ∃ value, result = .ok value ∧ p value = true := by
  cases result with
  | error e => cases h
  | ok value => exact ⟨value, rfl, h⟩

theorem locate_renamed : ∃ scope, renamed.scopeOf "crate::m::T" ["m"] = .ok scope ∧
    renamed.locate "crate::n::A" = .ok ⟨scope, .type "T", scope.moduleName ++ "::" ++ "T"⟩ := by
  have hfirst : (renamed.scopeOf "crate::n::A" ["n"]).toOption.any (fun scope =>
      !scope.defines "A" && scope.module = ["crate", "n"] &&
        Item.bindings scope.items = [(["crate", "m", "T"], "A")]) = true := by decide +kernel
  have hlast : (renamed.scopeOf "crate::m::T" ["m"]).toOption.any (fun scope => scope.defines "T") =
      true := by
    decide +kernel
  obtain ⟨importing, hn, hfirst⟩ := exists_ok_of_any hfirst
  obtain ⟨declaring, hm, hdefines⟩ := exists_ok_of_any hlast
  simp only [Bool.and_eq_true, Bool.not_eq_true', decide_eq_true_eq] at hfirst
  obtain ⟨⟨hundefined, hmodule⟩, hbindings⟩ := hfirst
  have himport : Item.bindings importing.items = [] ++ (["crate", "m", "T"], "A") :: [] := hbindings
  have hlink : renamed.Reexports "crate::n::A" (Name.join ["crate", "m", "T"]) :=
    .intro ⟨by decide, ["n"], by decide, hn⟩ hundefined himport (by decide) (.root ["m", "T"])
  have hchain : renamed.Chain 1 "crate::n::A" "crate::m::T" := .next hlink (.here _)
  refine ⟨declaring, hm, ?_⟩
  exact (locate_of_chain hchain).1 (by decide) declaring "T"
    ⟨by decide, ["m"], by decide, hm⟩ hdefines

def nesting : SourceTree where
  files := .directory [("src", .directory [("lib.rs",
    .file (some "pub mod outer { pub mod inner { pub struct User; } pub use inner::User; }"))])]
  root := "src"

/-- Such a type is not located where it is imported, as it is looked for at the root. -/
theorem not_locate_below_module :
    (∃ scope, nesting.scopeOf "crate::outer::inner::User" ["outer", "inner"] = .ok scope ∧
        scope.defines "User" = true) ∧
      (∃ scope, nesting.Asks "crate::outer::User" scope "User" ∧ scope.defines "User" = false ∧
        "inner" ∈ scope.modules ∧ Item.bindings scope.items = [(["inner", "User"], "User")]) ∧
      ∀ found, nesting.locate "crate::outer::User" ≠ .ok found := by
  have hinner : (nesting.scopeOf "crate::outer::inner::User" ["outer", "inner"]).toOption.any
      (fun scope => scope.defines "User") = true := by decide +kernel
  have houter : (nesting.scopeOf "crate::outer::User" ["outer"]).toOption.any (fun scope =>
      scope.defines "User" = false ∧ "inner" ∈ scope.modules ∧
        Item.bindings scope.items = [(["inner", "User"], "User")]) = true := by decide +kernel
  have hlocate : (nesting.locate "crate::outer::User").toOption.isNone = true := by decide +kernel
  obtain ⟨outer, hscope, houter⟩ := exists_ok_of_any houter
  refine ⟨exists_ok_of_any hinner,
    ⟨outer, ⟨by decide, ["outer"], by decide, hscope⟩, of_decide_eq_true houter⟩, ?_⟩
  intro found hfound
  rw [hfound] at hlocate
  cases hlocate

end ApiContract.SourceTree
