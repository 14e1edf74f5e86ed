import ApiContract.Proofs.Names
import ApiContract.Proofs.Scopes
import ApiContract.Proofs.Table

namespace ApiContract

open Source

namespace Source.UseTree

mutual

/-- The paths that a tree of imports is written with, each with the name that is bound to it. -/
def bindings (start : List String) : UseTree → List (List String × String)
  | .path ident tree => bindings (start ++ [ident]) tree
  | .name "self" =>
    match start.getLast? with
    | some last => [(start, last)]
    | none => []
  | .name ident => [(start ++ [ident], ident)]
  | .rename "self" other => [(start, other)]
  | .rename ident other => [(start ++ [ident], other)]
  | .glob => []
  | .group trees => bindingsOfAll start trees

def bindingsOfAll (start : List String) : List UseTree → List (List String × String)
  | [] => []
  | tree :: trees => bindings start tree ++ bindingsOfAll start trees

end

theorem bindings_name (start : List String) {ident : String} (h : ident ≠ "self") :
    bindings start (.name ident) = [(start ++ [ident], ident)] := by
  rw [bindings]
  exact h

theorem bindings_rename (start : List String) {ident : String} (other : String)
    (h : ident ≠ "self") : bindings start (.rename ident other) = [(start ++ [ident], other)] := by
  rw [bindings]
  exact h

def Spelled (binding : List String × String) : Prop :=
  (∀ part ∈ binding.1, isIdentifier part = true) ∧ isIdentifier binding.2 = true

theorem spelled_concat {start : List String} {ident other : String}
    (hs : ∀ part ∈ start, isIdentifier part = true) (hi : isIdentifier ident = true)
    (ho : isIdentifier other = true) : Spelled (start ++ [ident], other) :=
  ⟨List.forall_mem_append.mpr ⟨hs, List.forall_mem_singleton.mpr hi⟩, ho⟩

mutual

theorem spelled_bindings {start : List String} {tree : UseTree} (h : tree.Named)
    (hs : ∀ part ∈ start, isIdentifier part = true) :
    ∀ binding ∈ bindings start tree, Spelled binding := by
  intro binding hm
  cases h with
  | @path ident tree hi ht =>
    rw [bindings] at hm
    exact spelled_bindings ht (List.forall_mem_append.mpr ⟨hs, List.forall_mem_singleton.mpr hi⟩)
      binding hm
  | @name ident hi =>
    by_cases hself : ident = "self"
    · subst hself
      rw [bindings] at hm
      split at hm
      next last hlast =>
        cases List.mem_singleton.mp hm
        exact ⟨hs, hs last (List.mem_of_getLast? hlast)⟩
      next => cases hm
    · rw [bindings_name start hself, List.mem_singleton] at hm
      exact hm ▸ spelled_concat hs hi hi
  | @rename ident other hi ho =>
    by_cases hself : ident = "self"
    · subst hself
      rw [bindings, List.mem_singleton] at hm
      exact hm ▸ ⟨hs, ho⟩
    · rw [bindings_rename start other hself, List.mem_singleton] at hm
      exact hm ▸ spelled_concat hs hi ho
  | glob => cases hm
  | @group trees ht =>
    rw [bindings] at hm
    exact spelled_bindingsOfAll ht hs binding hm

theorem spelled_bindingsOfAll {start : List String} {trees : List UseTree}
    (h : ∀ tree ∈ trees, tree.Named) (hs : ∀ part ∈ start, isIdentifier part = true) :
    ∀ binding ∈ bindingsOfAll start trees, Spelled binding := by
  intro binding hm
  cases trees with
  | nil => cases hm
  | cons tree trees =>
    obtain ⟨htree, htrees⟩ := List.forall_mem_cons.mp h
    rw [bindingsOfAll, List.mem_append] at hm
    obtain hm | hm := hm
    · exact spelled_bindings htree hs binding hm
    · exact spelled_bindingsOfAll htrees hs binding hm

end

end Source.UseTree

def Source.Item.bindings (items : List Item) : List (List String × String) :=
  items.flatMap fun
    | .imports tree => tree.bindings []
    | _ => []

theorem Source.Item.spelled_bindings {items : List Item} (h : ∀ item ∈ items, item.Named) :
    ∀ binding ∈ bindings items, UseTree.Spelled binding := by
  intro binding hm
  obtain ⟨item, hitem, hm⟩ := List.mem_flatMap.mp hm
  cases h item hitem with
  | imports ht => exact UseTree.spelled_bindings ht (by simp) binding hm
  | _ => cases hm

namespace Scope

def starts : List String := ["crate", "self", "super"]

theorem ne_of_not_mem_starts {name : String} (h : name ∉ starts) :
    name ≠ "crate" ∧ name ≠ "self" ∧ name ≠ "super" := by
  simpa [starts] using h

theorem not_mem_starts {name : String} (h : IsDeclarable name) : name ∉ starts := by
  have hkeywords : ∀ word ∈ starts, word ∈ Reading.keywords ∧ word ≠ "try" := by decide
  intro hm
  obtain h | h := h.2
  · exact h (hkeywords name hm).1
  · exact (hkeywords name hm).2 h

end Scope

namespace Imports

def entry (module : List String) (binding : List String × String) : String × String :=
  (binding.2, target module binding.1)

mutual

theorem leaves_eq (module start : List String) (tree : UseTree) :
    leaves module start tree = (tree.bindings start).map (entry module) := by
  cases tree with
  | path ident tree =>
    rw [leaves, UseTree.bindings]
    exact leaves_eq module (start ++ [ident]) tree
  | name ident =>
    by_cases h : ident = "self"
    · subst h
      rw [leaves, UseTree.bindings]
      cases start.getLast? <;> rfl
    · rw [leaves, UseTree.bindings_name start h, List.map_singleton, entry]
      exact h
  | rename ident other =>
    by_cases h : ident = "self"
    · subst h
      rw [leaves, UseTree.bindings, List.map_singleton, entry]
    · rw [leaves, UseTree.bindings_rename start other h, List.map_singleton, entry]
      exact h
  | glob => rw [leaves, UseTree.bindings, List.map_nil]
  | group trees =>
    rw [leaves, UseTree.bindings]
    exact leavesOfAll_eq module start trees

theorem leavesOfAll_eq (module start : List String) (trees : List UseTree) :
    leavesOfAll module start trees = (UseTree.bindingsOfAll start trees).map (entry module) := by
  cases trees with
  | nil => rw [leavesOfAll, UseTree.bindingsOfAll, List.map_nil]
  | cons tree trees =>
    rw [leavesOfAll, UseTree.bindingsOfAll, List.map_append, leaves_eq module start tree,
      leavesOfAll_eq module start trees]

end

theorem ofItems_eq (module : List String) (items : List Item) :
    ofItems module items = Table.ofList ((Item.bindings items).map (entry module)) := by
  rw [ofItems, Item.bindings, List.map_flatMap]
  congr 2
  funext item
  cases item with
  | imports tree => exact leaves_eq module [] tree
  | _ => rfl

theorem absolute_of_not_mem (module : List String) {first : String} {rest : List String}
    (h : first ∉ Scope.starts) : absolute module (first :: rest) = first :: rest := by
  obtain ⟨-, hself, hsuper⟩ := Scope.ne_of_not_mem_starts h
  unfold absolute
  split
  next heq =>
    cases heq
    exact absurd rfl hself
  next heq =>
    cases heq
    exact absurd rfl hsuper
  next => rfl

theorem absolute_super (module : List String) (steps : Nat) {rest : List String}
    (h : rest.head? ≠ some "super") :
    absolute.upward module (List.replicate steps "super" ++ rest) =
      module.take (max 1 (module.length - steps)) ++ rest := by
  induction steps generalizing module with
  | zero =>
    rw [List.replicate_zero, List.nil_append, absolute.upward, Nat.sub_zero,
      List.take_of_length_le (Nat.le_max_right _ _)]
    rintro more rfl
    exact h rfl
  | succ steps ih =>
    rw [List.replicate_succ, List.cons_append, absolute.upward, ih, absolute.parent]
    split
    next hinside =>
      rw [List.length_dropLast, List.dropLast_eq_take, List.take_take]
      congr 2
      omega
    next hroot =>
      rw [List.take_of_length_le (by omega), List.take_of_length_le (by omega)]

/-- Where a written path leads from a module. Its first word says where it starts, and a path that
starts with another word is one from the root already. -/
inductive LeadsTo (module : List String) : List String → List String → Prop where
  | root (rest : List String) : LeadsTo module ("crate" :: rest) ("crate" :: rest)
  | here (rest : List String) : LeadsTo module ("self" :: rest) (module ++ rest)
  | above {steps : Nat} {rest : List String} (hpos : 0 < steps)
      (hrest : rest.head? ≠ some "super") : LeadsTo module (List.replicate steps "super" ++ rest)
      (module.take (max 1 (module.length - steps)) ++ rest)
  | plain {first : String} (rest : List String) (hfirst : first ∉ Scope.starts) :
      LeadsTo module (first :: rest) (first :: rest)

theorem LeadsTo.absolute_eq {module written path : List String} (h : LeadsTo module written path) :
    absolute module written = path := by
  cases h with
  | root rest => rfl
  | here rest => rfl
  | @above steps rest hpos hrest =>
    obtain ⟨steps, rfl⟩ := Nat.exists_eq_add_one.mpr hpos
    exact absolute_super module (steps + 1) hrest
  | plain rest hfirst => exact absolute_of_not_mem module hfirst

/-- Of several imports of one name the last one counts. -/
theorem get?_last {module : List String} {items : List Item}
    {before after : List (List String × String)} {written : List String} {name : String}
    (h : Item.bindings items = before ++ (written, name) :: after)
    (hlast : name ∉ after.map Prod.snd) :
    (ofItems module items).get? name = some (target module written) := by
  rw [ofItems_eq, h, List.map_append, List.map_cons, entry]
  refine Table.get?_ofList _ _ _ ?_
  rwa [List.map_map]

theorem get?_ofItems {module : List String} {items : List Item}
    {before after : List (List String × String)} {written path : List String} {name : String}
    (h : Item.bindings items = before ++ (written, name) :: after)
    (hlast : name ∉ after.map Prod.snd) (hleads : LeadsTo module written path) :
    (ofItems module items).get? name = some (Name.join path) := by
  rw [get?_last h hlast, target, hleads.absolute_eq]

end Imports

namespace Scope

theorem resolve_of_segments (scope : Scope) {name first : String} {rest : List String}
    (hname : Name.segments name = first :: rest) (hstart : first ∉ starts) :
    scope.resolve name =
      match scope.alias? first with
      | some meaning => rest.foldl (fun text segment => text ++ "::" ++ segment) meaning
      | none =>
        if rest.isEmpty && Name.isPrelude first then first
        else if rest.isEmpty || scope.modules.contains first then
          scope.moduleName ++ "::" ++ Name.join (first :: rest)
        else Name.join (first :: rest) := by
  obtain ⟨hcrate, hself, hsuper⟩ := ne_of_not_mem_starts hstart
  rw [resolve, hname]
  simp only [if_neg hcrate, hself, hsuper, or_self, if_false]
  rfl

theorem resolve_alias (scope : Scope) {name meaning : String} (hname : Name.IsPart name)
    (hstart : name ∉ starts) (h : scope.alias? name = some meaning) :
    scope.resolve name = meaning := by
  rw [scope.resolve_of_segments (Name.segments_part hname) hstart, h]
  rfl

theorem resolve_binding {path : String} {module : List String} {items : List Item}
    {before after : List (List String × String)} {written leading : List String} {name : String}
    (h : Item.bindings items = before ++ (written, name) :: after)
    (hlast : name ∉ after.map Prod.snd) (hname : Name.IsPart name) (hstart : name ∉ starts)
    (hleads : Imports.LeadsTo module written leading) :
    (ofItems path module items).resolve name = Name.join leading :=
  resolve_alias _ hname hstart (Imports.get?_ofItems h hlast hleads)

theorem resolve_below_module (scope : Scope) {first : String} {rest : List String}
    (hparts : ∀ part ∈ first :: rest, Name.IsPart part) (hstart : first ∉ starts)
    (hrest : rest ≠ []) (hmodule : first ∈ scope.modules) (halias : scope.alias? first = none) :
    scope.resolve (Name.join (first :: rest)) =
      scope.moduleName ++ "::" ++ Name.join (first :: rest) := by
  rw [scope.resolve_of_segments (Name.segments_join hparts) hstart, halias]
  simp [hrest, hmodule]

/-- An import through a module that is declared beside it stands for the path as it is written,
while the path itself, written anywhere else in the module, is taken below the module. -/
theorem resolve_import_below_module {text path : String} {module : List String} {file : File}
    {scope : Scope} {before after : List (List String × String)} {first name : String}
    {rest : List String} (hfile : File.parse? text = some file)
    (hscope : scope ∈ ofFile ⟨path, module, file.items⟩) (hmodule : first ∈ scope.modules)
    (halias : scope.alias? first = none)
    (himport : Item.bindings scope.items = before ++ (first :: rest, name) :: after)
    (hlast : name ∉ after.map Prod.snd) (hrest : rest ≠ []) (hname : name ∉ starts) :
    scope.resolve name = Name.join (first :: rest) ∧ scope.resolve (Name.join (first :: rest)) =
        scope.moduleName ++ "::" ++ Name.join (first :: rest) ∧
      scope.resolve name ≠ scope.resolve (Name.join (first :: rest)) := by
  have hnamed : ∀ item ∈ file.items, item.Named := File.named_of_parse? hfile
  have hfirst : first ∉ starts := not_mem_starts (isDeclarable_of_mem_modules hscope hnamed hmodule)
  obtain ⟨hparts, hbound⟩ : UseTree.Spelled (first :: rest, name) := by
    apply Item.spelled_bindings (named_of_mem_ofFile hnamed hscope)
    rw [himport]
    exact List.mem_append_right _ List.mem_cons_self
  have himported : scope.resolve name = Name.join (first :: rest) := by
    rw [eq_ofItems_of_mem_ofFile hscope]
    exact resolve_binding himport hlast (Name.isPart_of_isIdentifier hbound) hname
      (.plain rest hfirst)
  have hwritten : scope.resolve (Name.join (first :: rest)) =
      scope.moduleName ++ "::" ++ Name.join (first :: rest) :=
    scope.resolve_below_module (fun part hm => Name.isPart_of_isIdentifier (hparts part hm)) hfirst
      hrest hmodule halias
  refine ⟨himported, hwritten, ?_⟩
  rw [himported, hwritten]
  intro heq
  have hlength := congrArg String.length heq
  simp only [String.length_append] at hlength
  have hcolons : "::".length = 2 := rfl
  omega

theorem resolve_import_below_models :
    ∃ file scope, File.parse? "mod models; use models::User;" = some file ∧
      scope ∈ ofFile ⟨"src/lib.rs", ["crate"], file.items⟩ ∧ scope.resolve "User" = "models::User" ∧
      scope.resolve "models::User" = "crate::models::User" := by
  have hread : ((File.parse? "mod models; use models::User;").any fun file =>
      let scope := ofItems "src/lib.rs" ["crate"] file.items
      scope.modules = ["models"] ∧ scope.alias? "models" = none ∧
        Item.bindings file.items = [(["models", "User"], "User")]) = true := by decide +kernel
  obtain ⟨file, hfile, hread⟩ := (Option.any_eq_true _ _).mp hread
  obtain ⟨hmodules, halias, hbindings⟩ := of_decide_eq_true hread
  have himport : Item.bindings file.items = [] ++ ("models" :: ["User"], "User") :: [] := hbindings
  obtain ⟨himported, hwritten, -⟩ := resolve_import_below_module hfile (mem_ofFile.mpr (Or.inl rfl))
    (by simp [hmodules]) halias himport (by decide) (by decide) (by decide)
  exact ⟨file, _, hfile, mem_ofFile.mpr (Or.inl rfl), himported, hwritten⟩

end Scope

end ApiContract
