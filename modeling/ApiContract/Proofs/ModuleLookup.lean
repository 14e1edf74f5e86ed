import ApiContract.Proofs.ModuleFiles
import ApiContract.Proofs.Reexports

namespace ApiContract

open Source FilePath

namespace Scope

variable {path : String} {module : List String}

theorem inner?_ofItems_module (name step : String) (content rest : List Item) :
    (ofItems path module (.module name (some content) :: rest)).inner? step =
      if name = step then some (ofItems path (module ++ [step]) content)
      else (ofItems path module rest).inner? step := by
  by_cases h : name = step <;> simp [inner?, ofItems, h]

theorem inner?_ofItems_of_ne {step : String} {item : Item} (rest : List Item)
    (h : ∀ content, item ≠ .module step (some content)) :
    (ofItems path module (item :: rest)).inner? step = (ofItems path module rest).inner? step := by
  rw [inner?, inner?, ofItems, ofItems, List.findSome?_cons]
  split
  next found hitem =>
    split at hitem
    next name content =>
      split at hitem
      next heq => exact absurd (heq ▸ rfl) (h content)
      next => cases hitem
    next => cases hitem
  next => rfl

theorem nested_subset_cons (item : Item) (rest : List Item) :
    nested path module rest ⊆ nested path module (item :: rest) := by
  by_cases h : ∃ name content, item = .module name (some content)
  · obtain ⟨name, content, rfl⟩ := h
    rw [nested_module]
    exact List.subset_append_left _ _
  · rw [nested]
    · exact List.Subset.refl _
    · exact fun name content heq => h ⟨name, content, heq⟩

/-- The modules on the way to a scope that is written out somewhere, and how they lead to it. -/
structure Leads (path : String) (module : List String) (items : List Item) (steps : List String)
    (scope : Scope) : Prop where
  ne_nil : steps ≠ []
  module_eq : scope.module = module ++ steps
  nested : ∀ count,
      0 < count → module ++ steps.take count ∈ (Scope.nested path module items).map Scope.module
  descend : ∀ name, SourceTree.descend name (ofItems path module items) steps = .ok scope

theorem leads_here (name : String) (content rest : List Item) : Leads path module
    (.module name (some content) :: rest) [name] (ofItems path (module ++ [name]) content) where
  ne_nil := List.cons_ne_nil _ _
  module_eq := rfl
  nested := by
    intro count hpos
    rw [List.take_of_length_le hpos, nested_module, List.map_append]
    exact List.mem_append_right _ List.mem_cons_self
  descend := by
    intro asked
    rw [SourceTree.descend, inner?_ofItems_module, if_pos rfl]
    rfl

theorem Leads.inside {name : String} {content : List Item} {steps : List String} {scope : Scope}
    (h : Leads path (module ++ [name]) content steps scope) (rest : List Item) :
    Leads path module (.module name (some content) :: rest) (name :: steps) scope where
  ne_nil := List.cons_ne_nil _ _
  module_eq := by rw [h.module_eq, List.append_assoc, List.singleton_append]
  nested := by
    intro count hpos
    obtain rfl | hmore : count = 1 ∨ 0 < count - 1 := by omega
    · exact (leads_here name content rest).nested 1 hpos
    · have hinside := h.nested (count - 1) hmore
      rw [List.append_assoc, List.singleton_append, ← List.take_succ_cons, Nat.sub_add_cancel hpos]
        at hinside
      rw [nested_module, List.map_append]
      exact List.mem_append_right _ (List.mem_cons_of_mem _ hinside)
  descend := by
    intro asked
    rw [SourceTree.descend, inner?_ofItems_module, if_pos rfl]
    exact h.descend asked

theorem Leads.later {step : String} {more : List String} {rest : List Item} {scope : Scope}
    (h : Leads path module rest (step :: more) scope) {item : Item}
    (hitem : ∀ content, item ≠ .module step (some content)) :
    Leads path module (item :: rest) (step :: more) scope where
  ne_nil := h.ne_nil
  module_eq := h.module_eq
  nested := fun count hpos => List.map_subset _ (nested_subset_cons item rest) (h.nested count hpos)
  descend := by
    intro asked
    rw [SourceTree.descend, inner?_ofItems_of_ne rest hitem, ← h.descend asked, SourceTree.descend]

theorem exists_leads {items : List Item} {scope : Scope}
    (hnodup : ((nested path module items).map Scope.module).Nodup)
    (h : scope ∈ nested path module items) : ∃ steps, Leads path module items steps scope := by
  induction module, items using nested.induct with
  | case1 module => simp [nested] at h
  | case2 module rest name content ihrest ihcontent =>
    rw [nested_module, List.map_append, List.map_cons, List.nodup_append, List.nodup_cons] at hnodup
    obtain ⟨hrest, ⟨-, hcontent⟩, hapart⟩ := hnodup
    rw [nested_module, List.mem_append, List.mem_cons] at h
    obtain h | rfl | h := h
    · obtain ⟨steps, hleads⟩ := ihrest hrest h
      obtain ⟨step, more, rfl⟩ := List.exists_cons_of_ne_nil hleads.ne_nil
      refine ⟨step :: more, hleads.later ?_⟩
      -- a module of the same name beside this one would be written out twice
      rintro other ⟨⟩
      exact hapart _ (hleads.nested 1 Nat.one_pos) _ List.mem_cons_self rfl
    · exact ⟨[name], leads_here name content rest⟩
    · obtain ⟨steps, hleads⟩ := ihcontent hcontent h
      exact ⟨name :: steps, hleads.inside rest⟩
  | case3 module item rest hother ih =>
    rw [nested] at hnodup h
    · obtain ⟨steps, hleads⟩ := ih hnodup h
      obtain ⟨step, more, rfl⟩ := List.exists_cons_of_ne_nil hleads.ne_nil
      exact ⟨step :: more, hleads.later (hother step)⟩
    all_goals exact hother

theorem isIdentifier_of_defines {scope : Scope} (hnamed : ∀ item ∈ scope.items, item.Named)
    {name : String} (h : scope.defines name = true) : isIdentifier name = true := by
  obtain ⟨item, hm, hdefines⟩ := List.any_eq_true.mp h
  have hitem := hnamed item hm
  split at hdefines
  next =>
    cases hitem with
    | struct hn => exact eq_of_beq hdefines ▸ hn.1
  next =>
    cases hitem with
    | enum hn => exact eq_of_beq hdefines ▸ hn.1
  next =>
    cases hitem with
    | declaration hn => exact eq_of_beq hdefines ▸ hn.1
  next type _ _ =>
    cases hitem with
    | implementation ht =>
      cases type with
      | path p =>
        obtain ⟨segment, hlast, rfl⟩ := Option.map_eq_some_iff.mp (eq_of_beq hdefines)
        exact ht segment (List.mem_of_getLast? hlast)
      | _ => cases hdefines
  next => cases hdefines

end Scope

namespace SourceTree

open FileTree Scope

/-- The paths of all modules that are held by files, or written out in files that are scanned. -/
def claimed (entries : List (String × FileTree)) (files : List ParsedFile) : List (List String) :=
  (places entries).map Module.ofParts ++
    files.flatMap fun file => (nested file.path file.module file.items).map Scope.module

/-- A project in which every module has one place, where it is looked for. -/
structure Organized (tree : SourceTree) (entries : List (String × FileTree))
    (files : List ParsedFile) : Prop where
  root : tree.files.get? tree.root = some (.directory entries)
  tidy : Tidy entries
  scanned : Scan.sources tree.files tree.root = .ok files
  no_root_mod : ["mod.rs"] ∉ places entries
  claimed_once : (claimed entries files).Nodup
  not_claimed :
      [Module.root, "lib"] ∉ claimed entries files ∧ [Module.root, "main"] ∉ claimed entries files

variable {tree : SourceTree} {entries : List (String × FileTree)} {files : List ParsedFile}
  {file : ParsedFile} {modules : List String}

theorem not_mod_of_isDeclarable {name : String} (h : IsDeclarable name) : name ≠ "mod" := by
  rintro rfl
  obtain h | h := h.2
  · exact h (by decide)
  · exact absurd h (by decide)

theorem claimed_of_isFileAt (files : List ParsedFile) {place : List String}
    (h : IsFileAt entries place) : Module.ofParts place ∈ claimed entries files :=
  List.mem_append_left _ (List.mem_map_of_mem h.mem_places)

theorem claimed_of_mem_nested (hfile : file ∈ files) {scope : Scope}
    (h : scope ∈ nested file.path file.module file.items) : scope.module ∈ claimed entries files :=
  List.mem_append_right _ (List.mem_flatMap_of_mem hfile (List.mem_map_of_mem h))

namespace Organized

theorem isLocatable (h : tree.Organized entries files)
    (hm : Module.root :: modules ∈ claimed entries files)
    (hnamed : ∀ name ∈ modules, isIdentifier name = true ∧ name ≠ "mod") :
    Module.IsLocatable modules where
  named := fun name hname => (hnamed name hname).1
  not_mod := fun hmod => (hnamed "mod" hmod).2 rfl
  not_root := by
    constructor
    · rintro rfl
      exact h.not_claimed.1 hm
    · rintro rfl
      exact h.not_claimed.2 hm

theorem isLocatable_of_isFileAt (h : tree.Organized entries files) {place : List String}
    (hfile : IsFileAt entries place) :
    ∃ modules, Module.ofParts place = Module.root :: modules ∧ Module.IsLocatable modules := by
  obtain ⟨directories, stem, rfl, hsource⟩ := h.tidy.isSourcePlace hfile
  have hclaimed := claimed_of_isFileAt files hfile
  rw [Module.ofParts_source directories (no_dot_of_isIdentifier hsource.stem_named),
    List.cons_append] at hclaimed ⊢
  refine ⟨_, rfl,
    h.isLocatable hclaimed (List.forall_mem_append.mpr ⟨hsource.directories_named, ?_⟩)⟩
  intro name hname
  by_cases hmain : Module.IsMain directories stem
  · rw [if_pos hmain] at hname
    cases hname
  · rw [if_neg hmain, List.mem_singleton] at hname
    exact hname ▸ ⟨hsource.stem_named, fun hmod => hmain (Or.inl hmod)⟩

/-- What is scanned is read from a file of the project, and its module is the one that the file
holds. -/
theorem exists_place (h : tree.Organized entries files) (hfile : file ∈ files) :
    ∃ place, IsFileAt entries place ∧ file.path = place.foldl join tree.root ∧
      file.module = Module.ofParts place ∧
      ParsedFile.read tree.files file.path tree.root = .ok file ∧
      ∀ item ∈ file.items, item.Named := by
  obtain ⟨paths, path, hpaths, hm, hread⟩ := (Scan.mem_sources h.scanned).mp hfile
  rw [Scan.files, h.root] at hpaths
  cases hpaths
  obtain ⟨place, rfl, hplace⟩ := h.tidy.isFileAt_of_mem_belowEach hm
  obtain ⟨hpath, hmodule, hnamed⟩ := ParsedFile.read_ok hread
  obtain ⟨directories, stem, rfl, hsource⟩ := h.tidy.isSourcePlace hplace
  rw [Module.ofFile, relativeParts?_foldl_join tree.root hsource.plain] at hmodule
  exact ⟨_, hplace, hpath, hmodule, hpath ▸ hread, hnamed⟩

theorem file_eq (h : tree.Organized entries files) {place other : List String}
    (hplace : IsFileAt entries place) (hother : IsFileAt entries other)
    (heq : Module.ofParts other = Module.ofParts place) : other = place := by
  have hdiffer :
      (places entries).Pairwise fun place other => Module.ofParts place ≠ Module.ofParts other :=
    List.pairwise_map.mp (List.nodup_append.mp h.claimed_once).1
  have hsame : (places entries).Pairwise fun place other =>
      Module.ofParts place = Module.ofParts other → place = other :=
    hdiffer.imp fun hne heq => absurd heq hne
  have hflip : (places entries).Pairwise fun place other =>
      Module.ofParts other = Module.ofParts place → other = place :=
    hdiffer.imp fun hne heq => absurd heq.symm hne
  exact hsame.forall_of_forall_of_flip (fun _ _ _ => rfl) hflip hother.mem_places
    hplace.mem_places heq

theorem not_file_of_nested (h : tree.Organized entries files) (hfile : file ∈ files)
    {module : List String}
    (hmodule : module ∈ (nested file.path file.module file.items).map Scope.module)
    {place : List String} (hplace : IsFileAt entries place) : Module.ofParts place ≠ module := by
  have hapart := (List.nodup_append.mp h.claimed_once).2.2
  exact hapart _ (List.mem_map_of_mem hplace.mem_places) _ (List.mem_flatMap_of_mem hfile hmodule)

theorem nodup_nested (h : tree.Organized entries files) (hfile : file ∈ files) :
    ((nested file.path file.module file.items).map Scope.module).Nodup := by
  have hinline := (List.nodup_append.mp h.claimed_once).2.1
  exact (List.pairwise_flatMap.mp hinline).1 file hfile

theorem isLocatable_of_nested (h : tree.Organized entries files) (hfile : file ∈ files)
    {own : List String} (hown : file.module = Module.root :: own)
    (hlocatable : Module.IsLocatable own) {scope : Scope}
    (hscope : scope ∈ nested file.path file.module file.items)
    (hmodule : scope.module = Module.root :: modules) : Module.IsLocatable modules := by
  obtain ⟨-, -, -, -, -, hnamed⟩ := h.exists_place hfile
  obtain ⟨steps, -, hsteps, hdeclared⟩ := declared_of_mem_nested hnamed scope hscope
  obtain rfl : modules = own ++ steps := by
    rw [hmodule, hown, List.cons_append, List.cons.injEq] at hsteps
    exact hsteps.2
  refine h.isLocatable (hmodule ▸ claimed_of_mem_nested hfile hscope)
    (List.forall_mem_append.mpr ⟨?_, ?_⟩)
  · intro name hname
    exact ⟨hlocatable.named name hname, fun hmod => hlocatable.not_mod (hmod ▸ hname)⟩
  · exact fun step hstep =>
      ⟨(hdeclared step hstep).1, not_mod_of_isDeclarable (hdeclared step hstep)⟩

end Organized

theorem locate_of_scopeOf {scope : Scope} (hmodule : scope.module = Module.root :: modules)
    (hpart : ∀ name ∈ Module.root :: modules, Name.IsPart name)
    (hfound : tree.scopeOf scope.moduleName modules = .ok scope)
    (hlast : scope.module = [Module.root] ∨
        ∃ last, scope.module.getLast? = some last ∧ namesModule last = true) :
    tree.locate scope.moduleName = .ok ⟨scope, .module, scope.moduleName⟩ := by
  have hplace : belowRoot scope.moduleName = modules := by
    rw [belowRoot, Scope.moduleName, hmodule, Name.segments_join hpart]
    rfl
  have hmoduleFound :
      tree.locateModule scope.moduleName modules = .ok ⟨scope, .module, scope.moduleName⟩ := by
    rw [locateModule, hfound]
    rfl
  rw [SourceTree.locate, locateWithin_succ, hplace]
  cases hl : modules.getLast? with
  | none =>
    obtain rfl := List.getLast?_eq_none_iff.mp hl
    exact hmoduleFound
  | some last =>
    have hsmall : namesModule last = true := by
      obtain ⟨before, rfl⟩ := List.getLast?_eq_some_iff.mp hl
      rw [hmodule, ← List.cons_append, List.getLast?_concat] at hlast
      obtain hroot | ⟨_, ⟨⟩, hsmall⟩ := hlast
      · exact absurd hroot (by simp)
      · exact hsmall
    simp only [hsmall, if_true]
    exact hmoduleFound

/-- The search for a file stops at the first part of a module that has one, from the longest on. -/
theorem scopeFrom_eq {name : String} {count longest : Nat} {found : Except Failure Scope}
    (h : tree.scopeInFile? name modules count = some found) (hle : count ≤ longest) (hnone :
    ∀ longer, count < longer → longer ≤ longest → tree.moduleFile? (modules.take longer) = none) :
    tree.scopeFrom name modules longest = found := by
  induction longest with
  | zero =>
    obtain rfl := Nat.le_zero.mp hle
    rw [scopeFrom, h, Option.getD_some]
  | succ longest ih =>
    obtain rfl | hlt := Nat.eq_or_lt_of_le hle
    · rw [scopeFrom, h, Option.getD_some]
    · have hmissing : tree.scopeInFile? name modules (longest + 1) = none := by
        rw [scopeInFile?, hnone (longest + 1) hlt (Nat.le_refl _), Option.map_none]
      rw [scopeFrom, hmissing, Option.getD_none]
      exact ih (Nat.le_of_lt_succ hlt) fun longer hlonger hl =>
        hnone longer hlonger (Nat.le_succ_of_le hl)

namespace Organized

theorem exists_moduleFile? (h : tree.Organized entries files) (hfile : file ∈ files) :
    ∃ own, file.module = Module.root :: own ∧ Module.IsLocatable own ∧
      tree.moduleFile? own = some file.path ∧
      ParsedFile.read tree.files file.path tree.root = .ok file := by
  obtain ⟨place, hplace, hpath, hmodule, hread, -⟩ := h.exists_place hfile
  obtain ⟨own, hown, hlocatable⟩ := h.isLocatable_of_isFileAt hplace
  refine ⟨own, hmodule.trans hown, hlocatable, ?_, hread⟩
  rw [hpath]
  refine moduleFile?_eq_some h.root h.tidy (fun hmod => h.no_root_mod hmod.mem_places) hlocatable
    hplace hown ?_
  exact fun other hother heq => h.file_eq hplace hother (heq.trans hown.symm)

/-- A module that is written out in a file is looked for in no other file. -/
theorem scopeOf_nested (h : tree.Organized entries files) (hfile : file ∈ files) {scope : Scope}
    (hnested : scope ∈ nested file.path file.module file.items) :
    ∃ modules, scope.module = Module.root :: modules ∧ Module.IsLocatable modules ∧
      ∀ name, tree.scopeOf name modules = .ok scope := by
  obtain ⟨own, hheld, hlocatable, hfound, hread⟩ := h.exists_moduleFile? hfile
  obtain ⟨steps, hleads⟩ := exists_leads (h.nodup_nested hfile) hnested
  have hmodules : scope.module = Module.root :: (own ++ steps) := by
    rw [hleads.module_eq, hheld, List.cons_append]
  refine ⟨own ++ steps, hmodules, h.isLocatable_of_nested hfile hheld hlocatable hnested hmodules,
    fun name => ?_⟩
  have hinFile : tree.scopeInFile? name (own ++ steps) own.length = some (.ok scope) := by
    rw [scopeInFile?, List.take_left, hfound, Option.map_some, hread, List.drop_left, ← hheld]
    exact congrArg some (hleads.descend name)
  refine scopeFrom_eq hinFile (by simp) ?_
  -- what is longer than the module of the file is written out in it, so that no file holds it
  intro longer hlt hle
  have hinside := hleads.nested (longer - own.length) (by omega)
  have htake : (own ++ steps).take longer = own ++ steps.take (longer - own.length) := by
    rw [List.take_append, List.take_of_length_le (Nat.le_of_lt hlt)]
  obtain ⟨inner, hinner, hinnerModule⟩ := List.mem_map.mp hinside
  have hpart : inner.module = Module.root :: (own ++ steps).take longer := by
    rw [hinnerModule, hheld, htake, List.cons_append]
  refine moduleFile?_eq_none h.root (h.isLocatable_of_nested hfile hheld hlocatable hinner hpart) ?_
  exact fun other hother => hpart ▸ h.not_file_of_nested hfile (List.mem_map_of_mem hinner) hother

theorem scopeOf_scope (h : tree.Organized entries files) (hfile : file ∈ files) {scope : Scope}
    (hscope : scope ∈ ofFile file) : ∃ modules, scope.module = Module.root :: modules ∧
    Module.IsLocatable modules ∧ ∀ name, tree.scopeOf name modules = .ok scope := by
  obtain rfl | hnested := mem_ofFile.mp hscope
  · obtain ⟨own, hheld, hlocatable, hfound, hread⟩ := h.exists_moduleFile? hfile
    refine ⟨own, hheld, hlocatable, fun name => ?_⟩
    refine scopeFrom_eq ?_ (Nat.le_refl _) fun longer hlt hle => absurd hlt (Nat.not_lt.mpr hle)
    rw [scopeInFile?, List.take_length, hfound, Option.map_some, hread, List.drop_length, ← hheld]
    rfl
  · exact h.scopeOf_nested hfile hnested

theorem isPart_of_isLocatable (h : Module.IsLocatable modules) :
    ∀ name ∈ Module.root :: modules, Name.IsPart name := by
  have hroot : isIdentifier Module.root = true := by decide
  exact List.forall_mem_cons.mpr ⟨Name.isPart_of_isIdentifier hroot,
    fun name hname => Name.isPart_of_isIdentifier (h.named name hname)⟩

theorem locate_module (h : tree.Organized entries files) (hfile : file ∈ files) {scope : Scope}
    (hscope : scope ∈ ofFile file) (hlast : scope.module = [Module.root] ∨
      ∃ last, scope.module.getLast? = some last ∧ namesModule last = true) :
    tree.locate scope.moduleName = .ok ⟨scope, .module, scope.moduleName⟩ := by
  obtain ⟨modules, hmodule, hlocatable, hfound⟩ := h.scopeOf_scope hfile hscope
  exact locate_of_scopeOf hmodule (isPart_of_isLocatable hlocatable) (hfound _) hlast

theorem locate_type (h : tree.Organized entries files) (hfile : file ∈ files) {scope : Scope}
    (hscope : scope ∈ ofFile file) {type : String} (hdefines : scope.defines type = true)
    (hcapital : namesModule type = false) : tree.locate (scope.moduleName ++ "::" ++ type) =
    .ok ⟨scope, .type type, scope.moduleName ++ "::" ++ type⟩ := by
  obtain ⟨modules, hmodule, hlocatable, hfound⟩ := h.scopeOf_scope hfile hscope
  obtain ⟨-, -, -, -, -, hnamed⟩ := h.exists_place hfile
  have htype : Name.IsPart type := Name.isPart_of_isIdentifier
    (isIdentifier_of_defines (named_of_mem_ofFile hnamed hscope) hdefines)
  have hplace : belowRoot (scope.moduleName ++ "::" ++ type) = modules ++ [type] := by
    have hall : ∀ name ∈ Module.root :: modules ++ [type], Name.IsPart name :=
      List.forall_mem_append.mpr
        ⟨isPart_of_isLocatable hlocatable, List.forall_mem_singleton.mpr htype⟩
    rw [belowRoot, Scope.moduleName, hmodule, ← Name.join_concat type (List.cons_ne_nil _ _),
      Name.segments_join hall]
    rfl
  exact locateWithin_of_defines ⟨hcapital, modules, hplace, hfound _⟩ hdefines importLimit

/-- Every scope of a scanned file is located under the name of its module, and the types that it
defines are located below that name. -/
theorem locate_scope (h : tree.Organized entries files) (hfile : file ∈ files) {scope : Scope}
    (hscope : scope ∈ ofFile file) : (scope.module = [Module.root] ∨
        (∃ last, scope.module.getLast? = some last ∧ namesModule last = true) →
      tree.locate scope.moduleName = .ok ⟨scope, .module, scope.moduleName⟩) ∧
    ∀ type, scope.defines type = true → namesModule type = false →
      tree.locate (scope.moduleName ++ "::" ++ type) =
        .ok ⟨scope, .type type, scope.moduleName ++ "::" ++ type⟩ :=
  ⟨h.locate_module hfile hscope,
    fun _ hdefines hcapital => h.locate_type hfile hscope hdefines hcapital⟩

end Organized

def organizedEntries : List (String × FileTree) :=
  [("b", .directory [("mod.rs", .file (some "pub struct S;"))]),
    ("lib.rs", .file (some "pub mod a { pub struct T; }"))]

def organized : SourceTree := ⟨.directory [("src", .directory organizedEntries)], "src"⟩

theorem tidy_organized : Tidy organizedEntries := by
  have hinside : Tidy [("mod.rs", .file (some "pub struct S;"))] := by
    refine .intro (by decide) ?_ ?_ ?_
    · intro name text hm
      cases List.mem_singleton.mp hm
      exact ⟨"mod", by decide, by decide⟩
    · intro name inner hm
      cases List.mem_singleton.mp hm
    · intro name inner hm
      cases List.mem_singleton.mp hm
  refine .intro (by decide) ?_ ?_ ?_
  · intro name text hm
    obtain ⟨rfl, -⟩ : name = "lib.rs" ∧ _ := by simpa [organizedEntries] using hm
    exact ⟨"lib", by decide, by decide⟩
  · intro name inner hm
    obtain ⟨rfl, -⟩ : name = "b" ∧ _ := by simpa [organizedEntries] using hm
    exact ⟨by decide, by decide⟩
  · intro name inner hm
    obtain ⟨-, rfl⟩ : name = "b" ∧ inner = _ := by simpa [organizedEntries] using hm
    exact hinside

def isOrganized : List ParsedFile → Bool
  | [⟨_, b, [.struct _ "S" _ _]⟩, ⟨_, root, [.module "a" (some [.struct _ "T" _ _])]⟩] =>
    b = ["crate", "b"] && root = ["crate"]
  | _ => false

theorem locate_scope_organized : ∃ files file scope, organized.Organized organizedEntries files ∧
    file ∈ files ∧ scope ∈ ofFile file ∧ scope.module = ["crate", "a"] ∧
    organized.locate "crate::a" = .ok ⟨scope, .module, "crate::a"⟩ ∧
    organized.locate "crate::a::T" = .ok ⟨scope, .type "T", "crate::a::T"⟩ := by
  have hread : (Scan.sources organized.files organized.root).toOption.any isOrganized = true := by
    decide +kernel
  obtain ⟨files, hfiles, hshape⟩ := exists_ok_of_any hread
  unfold isOrganized at hshape
  split at hshape
  next pathB b attributesS fieldsS innerS pathRoot root attributes fields inner =>
    obtain ⟨rfl, rfl⟩ : b = ["crate", "b"] ∧ root = ["crate"] := by simpa using hshape
    have hplaces : (places organizedEntries).map Module.ofParts = [["crate", "b"], ["crate"]] := by
      decide
    have hwritten :
        nested pathRoot ["crate"] [.module "a" (some [.struct attributes "T" fields inner])] =
          [ofItems pathRoot ["crate", "a"] [.struct attributes "T" fields inner]] := by
      simp [nested]
    have hclaimed :
        claimed organizedEntries [⟨pathB, ["crate", "b"], [.struct attributesS "S" fieldsS innerS]⟩,
            ⟨pathRoot, ["crate"], [.module "a" (some [.struct attributes "T" fields inner])]⟩] =
          [["crate", "b"], ["crate"], ["crate", "a"]] := by
      rw [claimed, hplaces, List.flatMap_cons, List.flatMap_cons, hwritten]
      simp [nested, ofItems]
    have hproject : organized.Organized organizedEntries _ :=
      { root := rfl
        tidy := tidy_organized
        scanned := hfiles
        no_root_mod := by decide
        claimed_once := by
          rw [hclaimed]
          decide
        not_claimed := by
          rw [hclaimed]
          decide }
    have hscope : ofItems pathRoot ["crate", "a"] [.struct attributes "T" fields inner] ∈ ofFile
          ⟨pathRoot, ["crate"], [.module "a" (some [.struct attributes "T" fields inner])]⟩ := by
      rw [ofFile, hwritten]
      exact List.mem_cons_of_mem _ List.mem_cons_self
    obtain ⟨hmodule, htype⟩ :=
      hproject.locate_scope (List.mem_cons_of_mem _ List.mem_cons_self) hscope
    exact ⟨_, _, _, hproject, List.mem_cons_of_mem _ List.mem_cons_self, hscope, rfl,
      hmodule (Or.inr ⟨"a", rfl, by decide⟩), htype "T" (by simp [defines, ofItems]) (by decide)⟩
  next => cases hshape

end SourceTree

end ApiContract
