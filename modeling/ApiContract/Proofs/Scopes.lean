import ApiContract.Module.Locate
import ApiContract.Proofs.DeclaredNames

namespace ApiContract

open Source

namespace ParsedFile

theorem read_ok {tree : FileTree} {path sourceDir : String} {file : ParsedFile}
    (h : read tree path sourceDir = .ok file) : file.path = path ∧
    file.module = Module.ofFile path sourceDir ∧ ∀ item ∈ file.items, item.Named := by
  rw [read] at h
  split at h
  next => cases h
  next =>
    split at h
    next => cases h
    next hparse =>
      cases h
      exact ⟨rfl, rfl, File.named_of_parse? hparse⟩

end ParsedFile

namespace Scan

theorem mem_sources {tree : FileTree} {sourceDir : String} {sources : List ParsedFile}
    {file : ParsedFile} (hsources : Scan.sources tree sourceDir = .ok sources) :
    file ∈ sources ↔ ∃ paths path, files tree sourceDir = .ok paths ∧ path ∈ paths ∧
        ParsedFile.read tree path sourceDir = .ok file := by
  rw [Scan.sources] at hsources
  cases hfiles : files tree sourceDir with
  | error e =>
    rw [hfiles] at hsources
    cases hsources
  | ok paths =>
    rw [hfiles] at hsources
    cases hsources
    rw [List.mem_filterMap]
    constructor
    · rintro ⟨path, hpath, hread⟩
      refine ⟨paths, path, rfl, hpath, ?_⟩
      cases hr : ParsedFile.read tree path sourceDir with
      | error e =>
        rw [hr] at hread
        cases hread
      | ok other =>
        rw [hr] at hread
        cases hread
        rfl
    · rintro ⟨_, path, ⟨⟩, hpath, hread⟩
      exact ⟨path, hpath, by rw [hread]; rfl⟩

end Scan

namespace Scope

/-- A scope that says about its items what they say. -/
def Faithful (scope : Scope) : Prop := scope = ofItems scope.path scope.module scope.items

theorem faithful_ofItems (path : String) (module : List String) (items : List Item) :
    (ofItems path module items).Faithful := rfl

theorem nested_module (path : String) (module : List String) (name : String)
    (content rest : List Item) :
    nested path module (.module name (some content) :: rest) = nested path module rest ++
        ofItems path (module ++ [name]) content :: nested path (module ++ [name]) content := by
  rw [nested]

theorem nested_append (path : String) (module : List String) (items more : List Item) :
    nested path module (items ++ more) = nested path module more ++ nested path module items := by
  induction items with
  | nil => rw [List.nil_append, nested, List.append_nil]
  | cons item items ih =>
    cases item with
    | module name content => cases content <;> simp [nested, ih]
    | _ => simp [nested, ih]

/-- Induction over the modules that are written out among some items: one is the first item, or
stands inside of it, or comes later. -/
theorem forall_mem_nested {motive : List String → List Item → Scope → Prop} {path : String}
    {module : List String} {items : List Item} (later :
    ∀ module item rest scope, motive module rest scope → motive module (item :: rest) scope) (here :
    ∀ module name content rest,
      motive module (.module name (some content) :: rest) (ofItems path (module ++ [name]) content))
    (inside : ∀ module name content rest scope, motive (module ++ [name]) content scope →
        motive module (.module name (some content) :: rest) scope) :
    ∀ scope ∈ nested path module items, motive module items scope := by
  induction module, items using nested.induct with
  | case1 module => simp [nested]
  | case2 module rest name content ihrest ihcontent =>
    intro scope hm
    rw [nested_module, List.mem_append, List.mem_cons] at hm
    obtain hm | rfl | hm := hm
    · exact later _ _ _ _ (ihrest scope hm)
    · exact here _ _ _ _
    · exact inside _ _ _ _ _ (ihcontent scope hm)
  | case3 module item rest hother ih =>
    intro scope hm
    rw [nested] at hm
    · exact later _ _ _ _ (ih scope hm)
    · exact hother

theorem eq_ofItems_of_mem_nested {path : String} {module : List String} {items : List Item} :
    ∀ scope ∈ nested path module items, scope = ofItems path scope.module scope.items :=
  forall_mem_nested (motive := fun _ _ scope => scope = ofItems path scope.module scope.items)
    (fun _ _ _ _ h => h) (fun _ _ _ _ => rfl) fun _ _ _ _ _ h => h

theorem named_of_mem_nested {path : String} {module : List String} {items : List Item}
    (h : ∀ item ∈ items, item.Named) :
    ∀ scope ∈ nested path module items, ∀ item ∈ scope.items, item.Named := by
  intro scope hm
  refine forall_mem_nested (motive := fun _ items scope =>
    (∀ item ∈ items, item.Named) → ∀ item ∈ scope.items, item.Named) ?_ ?_ ?_ scope hm h
  · intro module item rest scope ih hall
    exact ih fun other ho => hall other (List.mem_cons_of_mem _ ho)
  · intro module name content rest hall
    cases hall _ List.mem_cons_self with
    | module _ hc => exact hc content rfl
  · intro module name content rest scope ih hall
    cases hall _ List.mem_cons_self with
    | module _ hc => exact ih (hc content rfl)

theorem declared_of_mem_nested {path : String} {module : List String} {items : List Item}
    (h : ∀ item ∈ items, item.Named) : ∀ scope ∈ nested path module items,
      ∃ steps, steps ≠ [] ∧ scope.module = module ++ steps ∧ ∀ step ∈ steps, IsDeclarable step := by
  intro scope hm
  refine forall_mem_nested (motive := fun module items scope => (∀ item ∈ items, item.Named) →
    ∃ steps, steps ≠ [] ∧ scope.module = module ++ steps ∧ ∀ step ∈ steps, IsDeclarable step) ?_ ?_
    ?_ scope hm h
  · intro module item rest scope ih hall
    exact ih fun other ho => hall other (List.mem_cons_of_mem _ ho)
  · intro module name content rest hall
    cases hall _ List.mem_cons_self with
    | module hn _ => exact ⟨[name], List.cons_ne_nil _ _, rfl, List.forall_mem_singleton.mpr hn⟩
  · intro module name content rest scope ih hall
    cases hall _ List.mem_cons_self with
    | module hn hc =>
      obtain ⟨steps, -, hsteps, hdeclared⟩ := ih (hc content rfl)
      refine ⟨name :: steps, List.cons_ne_nil _ _, ?_, List.forall_mem_cons.mpr ⟨hn, hdeclared⟩⟩
      rw [hsteps, List.append_assoc, List.singleton_append]

variable {file : ParsedFile} {scope : Scope}

theorem mem_ofFile : scope ∈ ofFile file ↔ scope = ofItems file.path file.module file.items ∨
      scope ∈ nested file.path file.module file.items :=
  List.mem_cons

theorem eq_ofItems_of_mem_ofFile (h : scope ∈ ofFile file) :
    scope = ofItems file.path scope.module scope.items := by
  obtain rfl | h := mem_ofFile.mp h
  · rfl
  · exact eq_ofItems_of_mem_nested scope h

theorem named_of_mem_ofFile (hnamed : ∀ item ∈ file.items, item.Named) (h : scope ∈ ofFile file) :
    ∀ item ∈ scope.items, item.Named := by
  obtain rfl | h := mem_ofFile.mp h
  · exact hnamed
  · exact named_of_mem_nested hnamed scope h

/-- Whatever stands in a scope of a project has names that can be declared. -/
theorem named_of_mem_sources {tree : FileTree} {sourceDir : String} {files : List ParsedFile}
    (hfiles : Scan.sources tree sourceDir = .ok files) (h : scope ∈ files.flatMap ofFile) :
    ∀ item ∈ scope.items, item.Named := by
  obtain ⟨file, hfile, hscope⟩ := List.mem_flatMap.mp h
  obtain ⟨_, _, -, -, hread⟩ := (Scan.mem_sources hfiles).mp hfile
  exact named_of_mem_ofFile (ParsedFile.read_ok hread).2.2 hscope

theorem isDeclarable_of_mem_modules (hscope : scope ∈ ofFile file)
    (hnamed : ∀ item ∈ file.items, item.Named) {name : String} (h : name ∈ scope.modules) :
    IsDeclarable name := by
  rw [eq_ofItems_of_mem_ofFile hscope] at h
  obtain ⟨item, hitem, hname⟩ := List.mem_filterMap.mp h
  have hitem := named_of_mem_ofFile hnamed hscope item hitem
  split at hname
  next =>
    cases hname
    cases hitem with
    | module hn _ => exact hn
  next => cases hname

theorem inner?_of_some {name : String} {inner : Scope} (h : scope.inner? name = some inner) :
    inner = ofItems scope.path (scope.module ++ [name]) inner.items := by
  obtain ⟨item, -, hitem⟩ := List.exists_of_findSome?_eq_some h
  split at hitem
  next =>
    split at hitem
    next =>
      cases hitem
      rfl
    next => cases hitem
  next => cases hitem

theorem named_of_inner? {name : String} {inner : Scope} (hnamed : ∀ item ∈ scope.items, item.Named)
    (h : scope.inner? name = some inner) : ∀ item ∈ inner.items, item.Named := by
  obtain ⟨item, hm, hitem⟩ := List.exists_of_findSome?_eq_some h
  have hnamed := hnamed item hm
  split at hitem
  next =>
    split at hitem
    next =>
      cases hitem
      cases hnamed with
      | module _ hcontent => exact hcontent _ rfl
    next => cases hitem
  next => cases hitem

/-- Whether no module is written out among some items. -/
def isFlat (items : List Source.Item) : Bool :=
  items.all fun
    | .module _ (some _) => false
    | _ => true

theorem nested_of_flat (path : String) (module : List String) {items : List Source.Item}
    (h : isFlat items = true) : nested path module items = [] := by
  induction items with
  | nil => rw [nested]
  | cons item rest ih =>
    obtain ⟨hfirst, hrest⟩ : _ ∧ isFlat rest = true := by
      simpa only [isFlat, List.all_cons, Bool.and_eq_true] using h
    rw [nested]
    · exact ih hrest
    · rintro name content rfl
      cases hfirst

theorem flatMap_ofFile {files : List ParsedFile}
    (h : (files.all fun file => isFlat file.items) = true) :
    files.flatMap ofFile = files.map fun file => ofItems file.path file.module file.items := by
  rw [List.map_eq_flatMap, List.flatMap_def, List.flatMap_def, List.map_congr_left]
  intro file hm
  rw [ofFile, nested_of_flat _ _ (List.all_eq_true.mp h file hm)]

@[elab_as_elim]
theorem of_flat {motive : List Scope → Prop} (files : List ParsedFile)
    (h : (files.all fun file => isFlat file.items) = true ∧
        motive (files.map fun file => ofItems file.path file.module file.items)) :
    motive (files.flatMap ofFile) :=
  flatMap_ofFile h.1 ▸ h.2

end Scope

namespace SourceTree

open Scope

theorem descend_ok {name : String} {steps : List String} {scope found : Scope}
    (hscope : scope.Faithful) (h : descend name scope steps = .ok found) :
    found.Faithful ∧ found.path = scope.path ∧ found.module = scope.module ++ steps := by
  induction steps generalizing scope with
  | nil =>
    cases h
    exact ⟨hscope, rfl, (List.append_nil _).symm⟩
  | cons step steps ih =>
    rw [descend] at h
    split at h
    next inner hinner =>
      have hitems := inner?_of_some hinner
      have hpath : inner.path = scope.path := by rw [hitems, ofItems]
      have hmodule : inner.module = scope.module ++ [step] := by rw [hitems, ofItems]
      have hfaithful : inner.Faithful := by rw [Faithful, hpath, hmodule, ← hitems]
      obtain ⟨hfound, hp, hm⟩ := ih hfaithful h
      exact ⟨hfound, hp.trans hpath, by rw [hm, hmodule, List.append_assoc, List.singleton_append]⟩
    next => cases h

theorem named_of_descend {name : String} {steps : List String} {scope found : Scope}
    (hnamed : ∀ item ∈ scope.items, item.Named) (h : descend name scope steps = .ok found) :
    ∀ item ∈ found.items, item.Named := by
  induction steps generalizing scope with
  | nil =>
    cases h
    exact hnamed
  | cons step steps ih =>
    rw [descend] at h
    split at h
    next inner hinner => exact ih (named_of_inner? hnamed hinner) h
    next => cases h

theorem scopeInFile?_ok {tree : SourceTree} {name : String} {modules : List String} {count : Nat}
    {found : Scope} (h : tree.scopeInFile? name modules count = some (.ok found)) :
    found.Faithful ∧ found.module = Module.root :: modules := by
  obtain ⟨path, -, hfound⟩ := Option.map_eq_some_iff.mp h
  split at hfound
  next => cases hfound
  next =>
    obtain ⟨hfaithful, -, hmodule⟩ := descend_ok (faithful_ofItems _ _ _) hfound
    refine ⟨hfaithful, hmodule.trans ?_⟩
    rw [ofItems, List.cons_append, List.take_append_drop]

theorem exists_scopeInFile? {tree : SourceTree} {name : String} {modules : List String}
    {found : Scope} (h : tree.scopeOf name modules = .ok found) :
    ∃ count, tree.scopeInFile? name modules count = some (.ok found) := by
  have hfrom : ∀ count, tree.scopeFrom name modules count = .ok found →
      ∃ count, tree.scopeInFile? name modules count = some (.ok found) := by
    intro count
    induction count with
    | zero =>
      intro h
      rw [scopeFrom] at h
      cases hfile : tree.scopeInFile? name modules 0 with
      | none => simp [hfile] at h
      | some result => exact ⟨0, by simpa [hfile] using h⟩
    | succ count ih =>
      intro h
      rw [scopeFrom] at h
      cases hfile : tree.scopeInFile? name modules (count + 1) with
      | none => exact ih (by simpa [hfile] using h)
      | some result => exact ⟨count + 1, by simpa [hfile] using h⟩
  exact hfrom _ h

theorem scopeOf_ok {tree : SourceTree} {name : String} {modules : List String} {found : Scope}
    (h : tree.scopeOf name modules = .ok found) :
    found.Faithful ∧ found.module = Module.root :: modules := by
  obtain ⟨count, hcount⟩ := exists_scopeInFile? h
  exact scopeInFile?_ok hcount

theorem named_of_scopeOf {tree : SourceTree} {name : String} {modules : List String} {found : Scope}
    (h : tree.scopeOf name modules = .ok found) : ∀ item ∈ found.items, item.Named := by
  obtain ⟨count, hcount⟩ := exists_scopeInFile? h
  obtain ⟨path, -, hfound⟩ := Option.map_eq_some_iff.mp hcount
  split at hfound
  next => cases hfound
  next parsed hread => exact named_of_descend (ParsedFile.read_ok hread).2.2 hfound

def belowRoot (name : String) : List String :=
  match Name.segments name with
  | "crate" :: rest => rest
  | other => other

theorem locateWithin_succ (tree : SourceTree) (name : String) (imports : Nat) :
    tree.locateWithin name (imports + 1) =
      match (belowRoot name).getLast? with
      | none => tree.locateModule name []
      | some last =>
        if namesModule last then tree.locateModule name (belowRoot name)
        else (do
          let scope ← tree.scopeOf name (belowRoot name).dropLast
          if scope.defines last then return ⟨scope, .type last, scope.moduleName ++ "::" ++ last⟩
          else
            let missing := Failure.sourceUnavailable name
              (Failure.marked last ++ " is not defined in " ++ scope.path)
            match scope.alias? last with
            | some meaning =>
              if meaning = name then throw missing else tree.locateWithin meaning imports
            | none => throw missing) := by
  rw [locateWithin]
  rfl

end SourceTree

end ApiContract
