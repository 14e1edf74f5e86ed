import ApiContract.Proofs.MethodBlocks

namespace ApiContract

open Source

namespace Imports

theorem exists_climb (names : List String) :
    ∃ steps rest, names = List.replicate steps "super" ++ rest ∧ rest.head? ≠ some "super" := by
  induction names with
  | nil => exact ⟨0, [], rfl, nofun⟩
  | cons name names ih =>
    by_cases hname : name = "super"
    · obtain ⟨steps, rest, rfl, hrest⟩ := ih
      exact ⟨steps + 1, rest, by rw [hname, List.replicate_succ, List.cons_append], hrest⟩
    · exact ⟨0, name :: names, rfl, by simpa using hname⟩

theorem exists_leadsTo (module : List String) {written : List String} (h : written ≠ []) :
    ∃ path, LeadsTo module written path := by
  obtain ⟨first, rest, rfl⟩ := List.exists_cons_of_ne_nil h
  by_cases hfirst : first ∈ Scope.starts
  · obtain rfl | rfl | rfl : first = "crate" ∨ first = "self" ∨ first = "super" := by
      simpa [Scope.starts] using hfirst
    · exact ⟨_, .root rest⟩
    · exact ⟨_, .here rest⟩
    · obtain ⟨steps, names, rfl, hnames⟩ := exists_climb rest
      exact ⟨_, .above (Nat.succ_pos steps) hnames⟩
  · exact ⟨_, .plain rest hfirst⟩

theorem LeadsTo.ne_nil {module written path : List String} (h : LeadsTo module written path)
    (hmodule : module ≠ []) : path ≠ [] := by
  cases h with
  | root | plain => exact List.cons_ne_nil _ _
  | here rest => exact List.append_ne_nil_of_left_ne_nil hmodule rest
  | above =>
    refine List.append_ne_nil_of_left_ne_nil (fun hnil => ?_) _
    have hlength := congrArg List.length hnil
    have hpos := List.length_pos_of_ne_nil hmodule
    rw [List.length_take, List.length_nil] at hlength
    omega

theorem exists_last_binding {bindings : List (List String × String)} {name : String}
    (h : name ∈ bindings.map Prod.snd) : ∃ before written after,
      bindings = before ++ (written, name) :: after ∧ name ∉ after.map Prod.snd := by
  induction bindings with
  | nil => cases h
  | cons binding rest ih =>
    by_cases hrest : name ∈ rest.map Prod.snd
    · obtain ⟨before, written, after, rfl, hlast⟩ := ih hrest
      exact ⟨binding :: before, written, after, rfl, hlast⟩
    · obtain rfl := (List.mem_cons.mp h).resolve_right hrest
      exact ⟨[], binding.1, rest, rfl, hrest⟩

theorem get?_ofItems_of_not_mem {module : List String} {items : List Item} {name : String}
    (h : name ∉ (Item.bindings items).map Prod.snd) : (ofItems module items).get? name = none := by
  rw [ofItems_eq, Table.get?_ofList_reverse]
  cases hfound : Table.get? ((Item.bindings items).map (entry module)).reverse name with
  | none => rfl
  | some meaning =>
    have hmem := List.mem_reverse.mp (Table.mem_of_get? hfound)
    obtain ⟨binding, hbinding, heq⟩ := List.mem_map.mp hmem
    obtain ⟨rfl, -⟩ := Prod.mk.inj heq
    exact absurd (List.mem_map_of_mem hbinding) h

end Imports

namespace Scope

/-- The ways to write, in a scope, the name of something in a module of the project: from the root
or from the module on, through the last import of the first word, by the name alone beside the
thing itself, and through a module that is declared there. -/
inductive Reaches (scope : Scope) : List String → String → Prop where
  | absolute {first : String} {rest path : List String} (hfirst : first ∈ starts)
      (hleads : Imports.LeadsTo scope.module (first :: rest) path) :
      Reaches scope (first :: rest) (Name.join path)
  | imported {before after : List (List String × String)} {first : String}
      {rest written path : List String} (hfirst : first ∉ starts)
      (himport : Item.bindings scope.items = before ++ (written, first) :: after)
      (hlast : first ∉ after.map Prod.snd)
      (hleads : Imports.LeadsTo scope.module written path) :
      Reaches scope (first :: rest) (Name.join (path ++ rest))
  | beside {name : String} (hname : name ∉ starts)
      (hlocal : name ∉ (Item.bindings scope.items).map Prod.snd)
      (hprelude : Name.isPrelude name = false) :
      Reaches scope [name] (scope.moduleName ++ "::" ++ name)
  | below {first : String} {rest : List String} (hfirst : first ∉ starts)
      (hlocal : first ∉ (Item.bindings scope.items).map Prod.snd)
      (hmodule : first ∈ scope.modules) (hrest : rest ≠ []) :
      Reaches scope (first :: rest) (scope.moduleName ++ "::" ++ Name.join (first :: rest))

variable {scope : Scope}

theorem resolve_start {first : String} {rest path : List String}
    (hparts : ∀ part ∈ first :: rest, Name.IsPart part) (hfirst : first ∈ starts)
    (hleads : Imports.LeadsTo scope.module (first :: rest) path) :
    scope.resolve (Name.join (first :: rest)) = Name.join path := by
  have hpath : Imports.target scope.module (first :: rest) = Name.join path :=
    congrArg Name.join hleads.absolute_eq
  rw [resolve, Name.segments_join hparts]
  obtain rfl | hrelative : first = "crate" ∨ first = "self" ∨ first = "super" := by
    simpa [starts] using hfirst
  · exact hpath
  · have hcrate : first ≠ "crate" := by
      obtain rfl | rfl := hrelative <;> decide
    dsimp only
    rw [if_neg hcrate, if_pos hrelative, hpath]

theorem resolve_imported {first meaning : String} {rest : List String}
    (hparts : ∀ part ∈ first :: rest, Name.IsPart part) (hfirst : first ∉ starts)
    (halias : scope.alias? first = some meaning) :
    scope.resolve (Name.join (first :: rest)) =
      rest.foldl (fun text segment => text ++ "::" ++ segment) meaning := by
  rw [scope.resolve_of_segments (Name.segments_join hparts) hfirst, halias]

theorem foldl_join {path : List String} (hpath : path ≠ []) (rest : List String) :
    rest.foldl (fun text segment => text ++ "::" ++ segment) (Name.join path) =
      Name.join (path ++ rest) := by
  by_cases hrest : rest = []
  · rw [hrest, List.foldl_nil, List.append_nil]
  · rw [foldl_below _ hrest, Name.join, Name.join, Name.join,
      String.intercalate_append_of_ne_nil hpath hrest]

/-- What a name is imported as, if it is. -/
theorem alias?_cases (hscope : scope.Faithful) (name : String) :
    (name ∉ (Item.bindings scope.items).map Prod.snd ∧ scope.alias? name = none) ∨
      ∃ before written after, Item.bindings scope.items = before ++ (written, name) :: after ∧
        name ∉ after.map Prod.snd ∧
          scope.alias? name = some (Imports.target scope.module written) := by
  by_cases hname : name ∈ (Item.bindings scope.items).map Prod.snd
  · obtain ⟨before, written, after, himport, hlast⟩ := Imports.exists_last_binding hname
    refine .inr ⟨before, written, after, himport, hlast, ?_⟩
    rw [alias?, hscope]
    exact Imports.get?_last himport hlast
  · refine .inl ⟨hname, ?_⟩
    rw [alias?, hscope]
    exact Imports.get?_ofItems_of_not_mem hname

theorem Reaches.resolve_eq (hscope : scope.Faithful) (hmodule : scope.module ≠ [])
    {written : List String} (hparts : ∀ part ∈ written, Name.IsPart part) {name : String}
    (h : scope.Reaches written name) : scope.resolve (Name.join written) = name := by
  have hlocal : ∀ {first}, first ∉ (Item.bindings scope.items).map Prod.snd →
      scope.alias? first = none := by
    intro first hfirst
    rw [alias?, hscope]
    exact Imports.get?_ofItems_of_not_mem hfirst
  cases h with
  | absolute hfirst hleads => exact resolve_start hparts hfirst hleads
  | @imported before after first rest written path hfirst himport hlast hleads =>
    have halias : scope.alias? first = some (Name.join path) := by
      rw [alias?, hscope]
      exact Imports.get?_ofItems himport hlast hleads
    rw [resolve_imported hparts hfirst halias, foldl_join (hleads.ne_nil hmodule)]
  | @beside name hname hbound hprelude =>
    rw [scope.resolve_of_segments (Name.segments_join hparts) hname, hlocal hbound]
    simp [hprelude, Name.join_singleton]
  | below hfirst hbound hdeclared hrest =>
    exact resolve_below_module scope hparts hfirst hrest hdeclared (hlocal hbound)

section

variable {first : String} {rest : List String} {name : String}

theorem join_ne_root (hparts : ∀ part ∈ first :: rest, Name.IsPart part) (hfirst : first ∉ starts) :
    Name.join (first :: rest) ≠ "crate" ++ "::" ++ name := by
  intro h
  have hsegments := congrArg Name.segments h
  rw [Name.segments_join hparts, Name.segments_append (by decide)] at hsegments
  obtain ⟨rfl, -⟩ := List.cons_eq_cons.mp hsegments
  exact hfirst List.mem_cons_self

theorem below_ne_root (names : List String) :
    names.foldl (fun text segment => text ++ "::" ++ segment) "" ≠ "crate" ++ "::" ++ name := by
  intro h
  have hchars := congrArg String.toList h
  cases names with
  | nil =>
    simp only [List.foldl_nil, String.toList_append] at hchars
    cases hchars
  | cons first rest =>
    rw [foldl_below _ (List.cons_ne_nil _ _)] at hchars
    simp only [String.toList_append] at hchars
    cases hchars

variable (hparts : ∀ part ∈ first :: rest, Name.IsPart part) (hfirst : first ∉ starts)
  (h : scope.resolve (Name.join (first :: rest)) = "crate" ++ "::" ++ name)
include hparts hfirst h

theorem reaches_of_local (hlocal : first ∉ (Item.bindings scope.items).map Prod.snd)
    (halias : scope.alias? first = none) :
    scope.Reaches (first :: rest) ("crate" ++ "::" ++ name) := by
  have hresolve := scope.resolve_of_segments (Name.segments_join hparts) hfirst
  have hforeign : Name.join (first :: rest) ≠ "crate" ++ "::" ++ name := join_ne_root hparts hfirst
  rw [h, halias] at hresolve
  cases rest with
  | nil =>
    rw [Name.join_singleton] at hresolve hforeign
    cases hprelude : Name.isPrelude first with
    | true => exact absurd (by simpa [hprelude] using hresolve.symm) hforeign
    | false =>
      have hbeside : "crate" ++ "::" ++ name = scope.moduleName ++ "::" ++ first := by
        simpa [hprelude] using hresolve
      rw [hbeside]
      exact .beside hfirst hlocal hprelude
  | cons second rest =>
    by_cases hdeclared : first ∈ scope.modules
    · rw [← h, resolve_below_module scope hparts hfirst (List.cons_ne_nil _ _) hdeclared halias]
      exact .below hfirst hlocal hdeclared (List.cons_ne_nil _ _)
    · exact absurd (by simpa [hdeclared] using hresolve.symm) hforeign

theorem reaches_of_imported (hmodule : scope.module ≠ [])
    {before after : List (List String × String)} {written : List String}
    (himport : Item.bindings scope.items = before ++ (written, first) :: after)
    (hlast : first ∉ after.map Prod.snd)
    (halias : scope.alias? first = some (Imports.target scope.module written)) :
    scope.Reaches (first :: rest) ("crate" ++ "::" ++ name) := by
  rw [resolve_imported hparts hfirst halias] at h
  cases written with
  | nil => exact absurd h (below_ne_root rest)
  | cons start more =>
    obtain ⟨path, hleads⟩ := Imports.exists_leadsTo scope.module (List.cons_ne_nil start more)
    rw [← h, Imports.target, hleads.absolute_eq, foldl_join (hleads.ne_nil hmodule)]
    exact .imported hfirst himport hlast hleads

end

/-- What is written in a scope means something in a module of the project exactly if it is one of
the ways to write it there. -/
theorem resolve_eq_iff_reaches (hscope : scope.Faithful) (hmodule : scope.module ≠ [])
    {written : List String} (hparts : ∀ part ∈ written, Name.IsPart part) (name : String) :
    scope.resolve (Name.join written) = "crate" ++ "::" ++ name ↔
      scope.Reaches written ("crate" ++ "::" ++ name) := by
  refine ⟨fun h => ?_, Reaches.resolve_eq hscope hmodule hparts⟩
  cases written with
  | nil =>
    have hempty : scope.resolve (Name.join []) = "" := rfl
    exact absurd (hempty.symm.trans h) (below_ne_root [])
  | cons first rest =>
    by_cases hfirst : first ∈ starts
    · obtain ⟨path, hleads⟩ := Imports.exists_leadsTo scope.module (List.cons_ne_nil first rest)
      rw [← h, resolve_start hparts hfirst hleads]
      exact .absolute hfirst hleads
    · obtain ⟨hlocal, halias⟩ | ⟨_, _, _, himport, hlast, halias⟩ := alias?_cases hscope first
      · exact reaches_of_local hparts hfirst h hlocal halias
      · exact reaches_of_imported hparts hfirst h hmodule himport hlast halias

theorem faithful_of_mem_ofFile {file : ParsedFile} (h : scope ∈ ofFile file) : scope.Faithful :=
  eq_ofItems_of_mem_ofFile h ▸ faithful_ofItems _ _ _

theorem exists_module_eq {tree : FileTree} {sourceDir : String} {files : List ParsedFile}
    (hfiles : Scan.sources tree sourceDir = .ok files) (h : scope ∈ files.flatMap ofFile) :
    ∃ modules, scope.module = "crate" :: modules := by
  obtain ⟨file, hfile, hscope⟩ := List.mem_flatMap.mp h
  obtain ⟨_, path, -, -, hread⟩ := (Scan.mem_sources hfiles).mp hfile
  obtain ⟨-, hmodule, hnamed⟩ := ParsedFile.read_ok hread
  have hroot : ∃ own, file.module = "crate" :: own := by
    rw [hmodule, Module.ofFile]
    split
    next parts _ =>
      unfold Module.ofParts
      split
      · exact ⟨[], rfl⟩
      · exact ⟨_, rfl⟩
    next => exact ⟨[], rfl⟩
  obtain ⟨own, hown⟩ := hroot
  obtain rfl | hnested := mem_ofFile.mp hscope
  · exact ⟨own, hown⟩
  · obtain ⟨steps, -, hsteps, -⟩ := declared_of_mem_nested hnamed scope hnested
    exact ⟨own ++ steps, by rw [hsteps, hown, List.cons_append]⟩

end Scope

end ApiContract
