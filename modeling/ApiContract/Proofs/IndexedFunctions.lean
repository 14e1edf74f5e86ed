import ApiContract.Proofs.ModuleLookup
import ApiContract.Proofs.Progress
import ApiContract.Generation

namespace ApiContract

open Source FilePath

/-- A module whose name tells where it is looked for. -/
structure Module.IsNameable (modules : List String) : Prop where
  plain : ∀ name ∈ modules, IsPlain name
  unmarked : ∀ name ∈ modules, ∀ c ∈ ['.', ':', '@'], c ∉ name.toList

namespace Scope

/-- The items that are reached by going into modules written out in one another. Of several modules
of one name the first one is gone into. -/
inductive Inside : List Item → List String → List Item → Prop where
  | here (items : List Item) : Inside items [] items
  | step {before content after inner : List Item} {name : String} {steps : List String}
    (hfirst : ∀ other, .module name (some other) ∉ before) (h : Inside content steps inner) :
    Inside (before ++ .module name (some content) :: after) (name :: steps) inner

variable {path : String} {module : List String}

theorem inner?_ofItems_first {before content after : List Item} {name : String}
    (hfirst : ∀ other, .module name (some other) ∉ before) :
    (ofItems path module (before ++ .module name (some content) :: after)).inner? name =
      some (ofItems path (module ++ [name]) content) := by
  induction before with
  | nil => rw [List.nil_append, inner?_ofItems_module, if_pos rfl]
  | cons item before ih =>
    have hitem : ∀ other, item ≠ .module name (some other) := by
      rintro other rfl
      exact hfirst other List.mem_cons_self
    rw [List.cons_append, inner?_ofItems_of_ne _ hitem]
    exact ih fun other hm => hfirst other (List.mem_cons_of_mem _ hm)

theorem Inside.descend {items inner : List Item} {steps : List String}
    (h : Inside items steps inner) (name : String) :
    SourceTree.descend name (ofItems path module items) steps =
      .ok (ofItems path (module ++ steps) inner) := by
  induction h generalizing module with
  | here => rw [SourceTree.descend, List.append_nil]
  | step hfirst _ ih =>
    rw [SourceTree.descend, inner?_ofItems_first hfirst]
    exact ih.trans (by rw [List.append_assoc, List.singleton_append])

theorem Inside.named {items inner : List Item} {steps : List String} (h : Inside items steps inner)
    (hnamed : ∀ item ∈ items, item.Named) :
    (∀ step ∈ steps, isIdentifier step = true) ∧ ∀ item ∈ inner, item.Named := by
  induction h with
  | here => exact ⟨fun _ hm => absurd hm List.not_mem_nil, hnamed⟩
  | step _ _ ih =>
    cases hnamed _ (List.mem_append_right _ List.mem_cons_self) with
    | module hn hc =>
      obtain ⟨hsteps, hinner⟩ := ih (hc _ rfl)
      exact ⟨List.forall_mem_cons.mpr ⟨hn.1, hsteps⟩, hinner⟩

end Scope

namespace Module

theorem isNameable_of_isIdentifier {modules : List String}
    (h : ∀ name ∈ modules, isIdentifier name = true) : IsNameable modules where
  plain := fun name hm => FileTree.isPlain_of_isIdentifier (h name hm)
  unmarked := by
    intro name hm c hc
    obtain rfl | rfl | rfl : c = '.' ∨ c = ':' ∨ c = '@' := by simpa using hc
    all_goals exact not_mem_of_isForeign ⟨by decide, by decide, by decide⟩ (h name hm)

theorem IsNameable.append {modules steps : List String} (h : IsNameable modules)
    (h' : IsNameable steps) : IsNameable (modules ++ steps) where
  plain := List.forall_mem_append.mpr ⟨h.plain, h'.plain⟩
  unmarked := List.forall_mem_append.mpr ⟨h.unmarked, h'.unmarked⟩

theorem IsNameable.take {modules : List String} (h : IsNameable modules) (count : Nat) :
    IsNameable (modules.take count) where
  plain := fun name hm => h.plain name (List.mem_of_mem_take hm)
  unmarked := fun name hm => h.unmarked name (List.mem_of_mem_take hm)

theorem IsNameable.below_root {modules : List String} (h : IsNameable modules) :
    IsNameable (root :: modules) :=
  (isNameable_of_isIdentifier (List.forall_mem_singleton.mpr (by decide))).append h

theorem IsNameable.isPart {modules : List String} (h : IsNameable modules) :
    ∀ name ∈ modules, Name.IsPart name :=
  fun name hm => ⟨(h.plain name hm).ne_empty, h.unmarked name hm ':' (by decide)⟩

theorem IsNameable.parse? {modules : List String} (h : IsNameable modules) (hne : modules ≠ [])
    {routine : String} (hroutine : isIdentifier routine = true) :
    HandlerId.parse? (Name.join modules ++ "::" ++ routine) =
      some ⟨Name.join modules, routine⟩ := by
  have hpart : Name.IsPart routine := Name.isPart_of_isIdentifier hroutine
  have hmark : '@' ∉ (Name.join modules).toList :=
    Name.not_mem_join (by decide) fun name hm => h.unmarked name hm '@' (by decide)
  have hmark' : '@' ∉ routine.toList :=
    not_mem_of_isForeign ⟨by decide, by decide, by decide⟩ hroutine
  have hreverse : '@' ∉ ((Name.join modules).toList ++ ':' :: ':' :: routine.toList).reverse := by
    simp [hmark, hmark']
  have howner : Name.join modules ≠ "" := by
    intro he
    have hsegments := Name.segments_join h.isPart
    rw [he] at hsegments
    exact hne hsegments.symm
  rw [HandlerId.parse?, Name.toList_append, Text.splitLast?, Text.splitFirst?_of_not_mem hreverse,
    Text.splitLastPath?_append _ hpart.no_colon]
  simp [howner, hpart.ne_empty]

end Module

namespace SourceTree

open FileTree Scope

/-- A file that comes first among those in which its module is looked for. -/
structure ComesFirst (tree : SourceTree) (entries : List (String × FileTree)) (file : ParsedFile)
    (own : List String) : Prop where
  module_eq : file.module = Module.root :: own
  nameable : Module.IsNameable own
  first : ∃ before place after, Module.candidates own = before ++ place :: after ∧
    file.path = place.foldl join tree.root ∧ ∀ other ∈ before, ¬ IsFileAt entries other

/-- A scope that stands where its module is looked for: in the file that comes first, and inside the
modules that come first there, none of which may have a file as well. -/
inductive Stands (tree : SourceTree) (entries : List (String × FileTree)) (file : ParsedFile) :
    Scope → Prop where
  | intro {own steps : List String} {inner : List Item} (hfirst : tree.ComesFirst entries file own)
    (hinside : Inside file.items steps inner)
    (halone : ∀ count, 0 < count → count ≤ steps.length →
      ∀ place ∈ Module.candidates (own ++ steps.take count), ¬ IsFileAt entries place) :
    Stands tree entries file (ofItems file.path (file.module ++ steps) inner)

variable {tree : SourceTree} {entries : List (String × FileTree)} {files : List ParsedFile}
  {file : ParsedFile}

theorem isFile_of_read {path : String} (h : ParsedFile.read tree.files path tree.root = .ok file) :
    tree.files.isFile path = true := by
  rw [ParsedFile.read] at h
  split at h
  next => cases h
  next text hread =>
    rw [FileTree.read?] at hread
    split at hread
    next hget => rw [FileTree.isFile, hget]
    next => cases hread

theorem read_of_mem_sources (hscanned : Scan.sources tree.files tree.root = .ok files)
    (hfile : file ∈ files) : ParsedFile.read tree.files file.path tree.root = .ok file := by
  obtain ⟨_, path, -, -, hread⟩ := (Scan.mem_sources hscanned).mp hfile
  exact (ParsedFile.read_ok hread).1 ▸ hread

theorem not_isFile_candidates (hroot : tree.files.get? tree.root = some (.directory entries))
    {modules : List String} (hnameable : Module.IsNameable modules) {place : List String}
    (hm : place ∈ Module.candidates modules) (hplace : ¬ IsFileAt entries place) :
    ¬ tree.files.isFile (place.foldl join tree.root) = true :=
  fun h =>
    hplace ((isFile_foldl_join hroot (Module.plain_of_mem_candidates hnameable.plain hm)).mp h)

theorem ComesFirst.moduleFile? {own : List String}
    (hroot : tree.files.get? tree.root = some (.directory entries))
    (h : tree.ComesFirst entries file own)
    (hread : ParsedFile.read tree.files file.path tree.root = .ok file) :
    tree.moduleFile? own = some file.path := by
  obtain ⟨before, place, after, hcandidates, hpath, hbefore⟩ := h.first
  have hdot : ∀ name ∈ own, '.' ∉ name.toList :=
    fun name hm => h.nameable.unmarked name hm '.' (by decide)
  rw [moduleFile?_eq h.nameable.plain hdot, List.find?_eq_some_iff_append, hcandidates]
  refine ⟨isFile_of_read hread, before.map fun place => place.foldl join tree.root,
    after.map fun place => place.foldl join tree.root,
    by rw [List.map_append, List.map_cons, hpath], ?_⟩
  intro path hm
  obtain ⟨other, hother, rfl⟩ := List.mem_map.mp hm
  have hcandidate : other ∈ Module.candidates own := hcandidates ▸ List.mem_append_left _ hother
  simpa using not_isFile_candidates hroot h.nameable hcandidate (hbefore other hother)

theorem moduleFile?_eq_none_of_alone (hroot : tree.files.get? tree.root = some (.directory entries))
    {modules : List String} (hnameable : Module.IsNameable modules)
    (halone : ∀ place ∈ Module.candidates modules, ¬ IsFileAt entries place) :
    tree.moduleFile? modules = none := by
  have hdot : ∀ name ∈ modules, '.' ∉ name.toList :=
    fun name hm => hnameable.unmarked name hm '.' (by decide)
  rw [moduleFile?_eq hnameable.plain hdot, List.find?_eq_none]
  intro path hm
  obtain ⟨place, hplace, rfl⟩ := List.mem_map.mp hm
  exact not_isFile_candidates hroot hnameable hplace (halone place hplace)

theorem Stands.scopeOf {scope : Scope}
    (hroot : tree.files.get? tree.root = some (.directory entries))
    (hread : ParsedFile.read tree.files file.path tree.root = .ok file)
    (h : tree.Stands entries file scope) : ∃ modules, scope.module = Module.root :: modules ∧
    Module.IsNameable modules ∧ ∀ name, tree.scopeOf name modules = .ok scope := by
  cases h with
  | @intro own steps inner hfirst hinside halone =>
    have hsteps : Module.IsNameable steps :=
      Module.isNameable_of_isIdentifier (hinside.named (ParsedFile.read_ok hread).2.2).1
    refine ⟨own ++ steps, by rw [ofItems, hfirst.module_eq, List.cons_append],
      hfirst.nameable.append hsteps, fun name => ?_⟩
    have hinFile : tree.scopeInFile? name (own ++ steps) own.length =
        some (.ok (ofItems file.path (file.module ++ steps) inner)) := by
      rw [scopeInFile?, List.take_left, hfirst.moduleFile? hroot hread, Option.map_some, hread,
        List.drop_left, ← hfirst.module_eq]
      exact congrArg some (hinside.descend name)
    refine scopeFrom_eq hinFile (by simp) ?_
    intro longer hlt hle
    have htake : (own ++ steps).take longer = own ++ steps.take (longer - own.length) := by
      rw [List.take_append, List.take_of_length_le (Nat.le_of_lt hlt)]
    rw [List.length_append] at hle
    rw [htake]
    exact moduleFile?_eq_none_of_alone hroot (hfirst.nameable.append (hsteps.take _))
      (halone (longer - own.length) (by omega) (by omega))

theorem Stands.named {scope : Scope}
    (hread : ParsedFile.read tree.files file.path tree.root = .ok file)
    (h : tree.Stands entries file scope) : ∀ item ∈ scope.items, item.Named := by
  cases h with
  | intro _ hinside _ => exact (hinside.named (ParsedFile.read_ok hread).2.2).2

end SourceTree

namespace Routers

variable {scope : Scope} {name : String} {declared : DeclaredFunction}

theorem functionsOf_eq (scope : Scope) : functionsOf scope = (Analyzer.functions scope).map fun f =>
      (scope.moduleName ++ "::" ++ f.name, ⟨scope, f.body⟩) := by
  rw [functionsOf, Analyzer.functions, List.map_filterMap]
  congr 1
  funext item
  cases item <;> rfl

/-- A function of the index is the last one of its name in the scope that it is declared in. -/
theorem exists_function {files : List ParsedFile}
    (h : (ofFiles files).functions.get? name = some declared) : ∃ f,
    ((Analyzer.functions declared.scope).reverse.find? fun other => other.name = f.name) = some f ∧
      f.body = declared.body ∧ name = declared.scope.moduleName ++ "::" ++ f.name := by
  rw [ofFiles, ofScopes, Table.get?_ofList_reverse] at h
  obtain ⟨scope, -, hlast⟩ := Table.exists_get?_reverse_flatMap h
  rw [functionsOf_eq, ← List.map_reverse, Table.get?_map_entries, Option.map_eq_some_iff] at hlast
  obtain ⟨f, hfind, rfl⟩ := hlast
  have hname : scope.moduleName ++ "::" ++ f.name = name := by simpa using List.find?_some hfind
  refine ⟨f, ?_, rfl, hname.symm⟩
  rw [← hname] at hfind
  simpa [String.append_right_inj] using hfind

end Routers

namespace Analyzer

theorem mem_functions {scope : Scope} {f : Function} (h : f ∈ functions scope) :
    .function f ∈ scope.items := by
  obtain ⟨item, hm, hitem⟩ := List.mem_filterMap.mp h
  split at hitem
  next =>
    cases hitem
    exact hm
  next => cases hitem

def handlersOf (a : Analyzer) (found : Located) : Table Handler :=
  Table.ofList ((routines found).map fun f => (f.name, Handler.ofFunction (a.contextOf found) f))

theorem analyze_eq (a : Analyzer) (name : String) :
    a.analyze name = (a.tree.locate name).bind fun found =>
      if (a.handlersOf found).isEmpty then
        .error (.sourceUnavailable name "no handler routines found")
      else .ok ⟨found.canonical, found.scope.path, a.handlersOf found⟩ := by
  refine congrArg (Except.bind (a.tree.locate name)) (funext fun found => ?_)
  rw [handlersOf]
  dsimp only
  split <;> rfl

theorem analyze_of_locate (a : Analyzer) {name : String} {found : Located}
    (hlocate : a.tree.locate name = .ok found) (h : a.handlersOf found ≠ []) :
    a.analyze name = .ok ⟨found.canonical, found.scope.path, a.handlersOf found⟩ := by
  rw [analyze_eq, hlocate]
  exact if_neg fun hempty => h (List.isEmpty_iff.mp hempty)

theorem exists_of_bind_ok {α β : Type} {outcome : Except Failure α} {next : α → Except Failure β}
    {y : β} (h : outcome.bind next = .ok y) : ∃ x, outcome = .ok x ∧ next x = .ok y := by
  cases outcome with
  | error f => cases h
  | ok x => exact ⟨x, rfl, h⟩

theorem handlers_of_analyze {a : Analyzer} {name : String} {analysis : Analysis}
    (h : a.analyze name = .ok analysis) : ∃ found, a.tree.locate name = .ok found ∧
    analysis = ⟨found.canonical, found.scope.path, a.handlersOf found⟩ := by
  rw [analyze_eq] at h
  obtain ⟨found, hlocate, h⟩ := exists_of_bind_ok h
  split at h
  · cases h
  · cases h
    exact ⟨found, hlocate, rfl⟩

theorem exists_function_of_get? {a : Analyzer} {found : Located} {routine : String}
    {handler : Handler} (h : (a.handlersOf found).get? routine = some handler) :
    ∃ f ∈ routines found,
      f.name = routine ∧ handler = Handler.ofFunction (a.contextOf found) f := by
  rw [handlersOf, Table.get?_ofList_reverse] at h
  obtain ⟨f, hf, he⟩ := List.mem_map.mp (List.mem_reverse.mp (Table.mem_of_get? h))
  cases he
  exact ⟨f, hf, rfl, rfl⟩

def moduleHandler (a : Analyzer) (scope : Scope) (f : Function) : Handler :=
  Handler.ofFunction (a.contextOf ⟨scope, .module, scope.moduleName⟩) f

/-- The handlers of a module are its functions, of which the last of a name counts. -/
theorem get?_handlersOf_module (a : Analyzer) {scope : Scope} {f : Function}
    (hlast : ((functions scope).reverse.find? fun other => other.name = f.name) = some f) :
    (a.handlersOf ⟨scope, .module, scope.moduleName⟩).get? f.name =
      some (a.moduleHandler scope f) := by
  rw [handlersOf, routines, Table.get?_ofList_reverse, ← List.map_reverse, Table.get?_map_entries,
    hlast, Option.map_some]
  rfl

theorem exists_analysis_module (a : Analyzer) {scope : Scope} {f : Function}
    (hlocate : a.tree.locate scope.moduleName = .ok ⟨scope, .module, scope.moduleName⟩)
    (hlast : ((functions scope).reverse.find? fun other => other.name = f.name) = some f) :
    ∃ found, a.analyze scope.moduleName = .ok found ∧
      found.handlers.get? f.name = some (a.moduleHandler scope f) := by
  have hget := a.get?_handlersOf_module hlast
  refine ⟨_, a.analyze_of_locate hlocate ?_, hget⟩
  intro hempty
  rw [hempty] at hget
  cases hget

end Analyzer

namespace Assembler

theorem handlerOfRoute_of_analysis (a : Assembler) {route : Route} {id : HandlerId}
    {found : Analysis} {handler : Handler} {p : Progress} (hid : route.handler = some id)
    (hfound : (a.analysis id.owner p).1 = .ok found)
    (hhandler : found.handlers.get? id.routine = some handler) :
    (a.handlerOfRoute route p).1 = handler := by
  rw [handlerOfRoute, hid]
  simp only [Assembler.handler, hfound, Except.bind, handlerIn, hhandler]

/-- A function of the index that stands where its module is looked for is never lost: whatever has
been analysed before, the analysis of its module succeeds and has it among its handlers, and it is
what is known of every route that names it. -/
theorem handler_of_indexed (a : Assembler) {entries : List (String × FileTree)}
    {files : List ParsedFile} {file : ParsedFile} {name : String} {declared : DeclaredFunction}
    (hroot : a.analyzer.tree.files.get? a.analyzer.tree.root = some (.directory entries))
    (hscanned : Scan.sources a.analyzer.tree.files a.analyzer.tree.root = .ok files)
    (hfile : file ∈ files) (hindexed : (Routers.ofFiles files).functions.get? name = some declared)
    (hstands : a.analyzer.tree.Stands entries file declared.scope)
    (hlast : declared.scope.module = [Module.root] ∨
        ∃ last, declared.scope.module.getLast? = some last ∧ SourceTree.namesModule last = true) :
    ∃ f, .function f ∈ declared.scope.items ∧ f.body = declared.body ∧
      name = declared.scope.moduleName ++ "::" ++ f.name ∧ ∀ p, a.Knows p →
        (∃ found, (a.analysis declared.scope.moduleName p).1 = .ok found ∧
            found.handlers.get? f.name = some (a.analyzer.moduleHandler declared.scope f)) ∧
          ∀ route : Route, route.handler = HandlerId.parse? name →
            (a.handlerOfRoute route p).1 = a.analyzer.moduleHandler declared.scope f := by
  obtain ⟨f, hfind, hbody, rfl⟩ := Routers.exists_function hindexed
  have hread := SourceTree.read_of_mem_sources hscanned hfile
  obtain ⟨modules, hmodule, hnameable, hscope⟩ := hstands.scopeOf hroot hread
  have hlocate := SourceTree.locate_of_scopeOf hmodule hnameable.below_root.isPart (hscope _) hlast
  obtain ⟨found, hanalyze, hget⟩ := a.analyzer.exists_analysis_module hlocate hfind
  have hfunction : Item.function f ∈ declared.scope.items :=
    Analyzer.mem_functions (List.mem_reverse.mp (List.mem_of_find?_eq_some hfind))
  have hroutine : isIdentifier f.name = true := by
    cases hstands.named hread _ hfunction with
    | function hf => exact hf.1
  refine ⟨f, hfunction, hbody, rfl, fun p hknows => ?_⟩
  have hanalysis : (a.analysis declared.scope.moduleName p).1 = .ok found :=
    (a.analysis_spec _ hknows).1.trans hanalyze
  refine ⟨⟨found, hanalysis, hget⟩, fun route hroute => ?_⟩
  rw [Scope.moduleName, hmodule, hnameable.below_root.parse? (List.cons_ne_nil _ _) hroutine,
    ← hmodule] at hroute
  exact a.handlerOfRoute_of_analysis hroute hanalysis hget

def twoRootsEntries : List (String × FileTree) :=
  [("b", .directory [("mod.rs", .file (some "mod c { fn kept() {} }"))]),
    ("lib.rs", .file (some "fn f() {}")), ("main.rs", .file (some "fn lost() {}"))]

def twoRoots : Project where
  tree := .directory [("src", .directory twoRootsEntries)]
  directory := ""

def twoRootsFiles (lib main : String) (f g h : Function) : List ParsedFile :=
  [⟨"src/b/mod.rs", ["crate", "b"], [.module "c" (some [.function f])]⟩,
    ⟨lib, ["crate"], [.function g]⟩, ⟨main, ["crate"], [.function h]⟩]

def isTwoRoots : List ParsedFile → Bool
  | [⟨path, b, [.module "c" (some [.function f])]⟩, ⟨_, lib, [.function g]⟩,
    ⟨_, main, [.function h]⟩] =>
    path = "src/b/mod.rs" ∧ b = ["crate", "b"] ∧ lib = ["crate"] ∧ main = ["crate"] ∧
      f.name = "kept" ∧ g.name = "f" ∧ h.name = "lost"
  | _ => false

theorem sources_twoRoots :
    ∃ lib main f g h, twoRoots.sources {} = .ok (twoRootsFiles lib main f g h) ∧ f.name = "kept" ∧
      g.name = "f" ∧ h.name = "lost" := by
  have hread : (twoRoots.sources {}).toOption.any isTwoRoots = true := by decide +kernel
  obtain ⟨files, hfiles, hshape⟩ := SourceTree.exists_ok_of_any hread
  unfold isTwoRoots at hshape
  split at hshape
  next =>
    obtain ⟨rfl, rfl, rfl, rfl, hnames⟩ := of_decide_eq_true hshape
    exact ⟨_, _, _, _, _, hfiles, hnames⟩
  next => cases hshape

theorem indexed_twoRoots (lib main : String) {f g h : Function} (hf : f.name = "kept")
    (hg : g.name = "f") (hh : h.name = "lost") :
    let index := (Routers.ofFiles (twoRootsFiles lib main f g h)).functions
    index.get? "crate::b::c::kept" =
        some ⟨Scope.ofItems "src/b/mod.rs" ["crate", "b", "c"] [.function f], f.body⟩ ∧
      index.get? "crate::lost" = some ⟨Scope.ofItems main ["crate"] [.function h], h.body⟩ := by
  have hkept : Name.join ["crate", "b", "c"] ++ "::" ++ "kept" = "crate::b::c::kept" := rfl
  have hlib : Name.join ["crate"] ++ "::" ++ "f" = "crate::f" := rfl
  have hlost : Name.join ["crate"] ++ "::" ++ "lost" = "crate::lost" := rfl
  dsimp only
  rw [Routers.ofFiles, Routers.ofScopes, Table.get?_ofList_reverse, Table.get?_ofList_reverse]
  simp [twoRootsFiles, Scope.ofFile, Scope.nested, Scope.ofItems, Routers.functionsOf,
    Scope.moduleName, Table.get?_cons, hf, hg, hh, hkept, hlib, hlost]

/-- In the directory of a module the file beside it is missing, so that the one inside comes
first. -/
theorem stands_kept (content : List Item) :
    SourceTree.Stands ⟨twoRoots.tree, "src"⟩ twoRootsEntries
      ⟨"src/b/mod.rs", ["crate", "b"], [.module "c" (some content)]⟩
      (Scope.ofItems "src/b/mod.rs" ["crate", "b", "c"] content) := by
  have hplaces : FileTree.places twoRootsEntries = [["b", "mod.rs"], ["lib.rs"], ["main.rs"]] :=
    rfl
  have hfile : ∀ place, FileTree.IsFileAt twoRootsEntries place →
      place ∈ [["b", "mod.rs"], ["lib.rs"], ["main.rs"]] := fun place h => hplaces ▸ h.mem_places
  have hpath : "src/b/mod.rs" = ["b", "mod.rs"].foldl join "src" := rfl
  have hinside : Scope.Inside ([] ++ .module "c" (some content) :: []) ["c"] content :=
    .step (fun _ hm => absurd hm List.not_mem_nil) (.here content)
  refine SourceTree.Stands.intro ⟨rfl, Module.isNameable_of_isIdentifier (by decide), ?_⟩ hinside ?_
  · refine ⟨[["b.rs"]], ["b", "mod.rs"], [], rfl, hpath, fun other hm h => ?_⟩
    obtain rfl := List.mem_singleton.mp hm
    exact absurd (hfile _ h) (by decide)
  · intro count hpos hle place hm h
    obtain rfl : count = 1 := by
      rw [List.length_singleton] at hle
      omega
    have hcandidates :
        Module.candidates (["b"] ++ ["c"].take 1) = [["b", "c.rs"], ["b", "c", "mod.rs"]] :=
      rfl
    have hnone : ∀ place ∈ [["b", "c.rs"], ["b", "c", "mod.rs"]],
        place ∉ [["b", "mod.rs"], ["lib.rs"], ["main.rs"]] := by
      decide
    exact hnone place (hcandidates ▸ hm) (hfile place h)

theorem handler_of_kept : ∃ files declared f found, twoRoots.sources {} = .ok files ∧
    (Routers.ofFiles files).functions.get? "crate::b::c::kept" = some declared ∧
    ((twoRoots.assembler {} files).analysis "crate::b::c" {}).1 = .ok found ∧
    found.handlers.get? f.name =
      some ((twoRoots.assembler {} files).analyzer.moduleHandler declared.scope f) := by
  obtain ⟨lib, main, f, g, h, hfiles, hf, hg, hh⟩ := sources_twoRoots
  let a := twoRoots.assembler {} (twoRootsFiles lib main f g h)
  have hindexed := (indexed_twoRoots lib main hf hg hh).1
  have hsource : twoRoots.sourceDir {} = "src" := rfl
  have hroot : twoRoots.tree.get? (twoRoots.sourceDir {}) = some (.directory twoRootsEntries) := by
    rw [hsource]
    rfl
  have hstands : a.analyzer.tree.Stands twoRootsEntries _ _ := stands_kept [.function f]
  have hsmall : SourceTree.namesModule "c" = true := by decide
  have hname : Name.join ["crate", "b", "c"] = "crate::b::c" := rfl
  obtain ⟨f', -, -, -, hall⟩ := a.handler_of_indexed hroot hfiles List.mem_cons_self hindexed
    hstands (Or.inr ⟨"c", rfl, hsmall⟩)
  obtain ⟨⟨found, hanalysis, hget⟩, -⟩ := hall {} (knows_fresh a)
  exact ⟨_, _, f', found, hfiles, hindexed, hname ▸ hanalysis, hget⟩

/-- A function of the second root file is in the index, and the analysis of the root lacks it. -/
theorem not_handler_of_lost : ¬ ∀ (project : Project) (config : Config) (files : List ParsedFile),
    project.sources config = .ok files →
      ∀ name declared routine, (Routers.ofFiles files).functions.get? name = some declared →
        name = declared.scope.moduleName ++ "::" ++ routine →
        declared.scope.module = [Module.root] → ∃ found handler,
          ((project.assembler config files).analysis declared.scope.moduleName {}).1 = .ok found ∧
            found.handlers.get? routine = some handler := by
  intro hall
  obtain ⟨lib, main, f, g, h, hfiles, hf, hg, hh⟩ := sources_twoRoots
  have hname : "crate::lost" = Name.join ["crate"] ++ "::" ++ "lost" := rfl
  obtain ⟨found, handler, hanalysis, hget⟩ := hall twoRoots {} _ hfiles "crate::lost" _ "lost"
    (indexed_twoRoots lib main hf hg hh).2 hname rfl
  have hlacks : ((twoRoots.assembler {} ((twoRoots.sources {}).toOption.getD [])).analysis
        (Name.join ["crate"]) {}).1.toOption.all
        (fun found => (found.handlers.get? "lost").isNone) =
      true := by
    decide +kernel
  have hfound : ((twoRoots.assembler {} ((twoRoots.sources {}).toOption.getD [])).analysis
        (Name.join ["crate"]) {}).1 =
      .ok found := by
    rw [hfiles]
    exact hanalysis
  rw [hfound] at hlacks
  simp [Except.toOption, hget] at hlacks

end Assembler

end ApiContract
