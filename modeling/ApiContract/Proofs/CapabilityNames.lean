import ApiContract.Capability
import ApiContract.Proofs.ImportedTypes
import ApiContract.Proofs.ReachedNames
import ApiContract.Proofs.RespelledFunctions

namespace ApiContract

open Source

/-- Types as an item writes them, with the traits that it says they have. -/
def Source.Item.marked : Item → List (List String × String)
  | .implementation (some trait) (.path self) _ _ =>
    match trait.last? with
    | some marker => [(self.names, marker.name)]
    | none => []
  | .struct attributes name _ _ =>
    (Capability.derives attributes).map fun marker => ([name], marker)
  | .enum attributes name _ =>
    (Capability.derives attributes).map fun marker => ([name], marker)
  | _ => []

theorem Source.Item.isPart_marked {item : Item} (h : item.Named) :
    ∀ mark ∈ item.marked, ∀ part ∈ mark.1, Name.IsPart part := by
  have hdeclared : ∀ {name : String} {markers : List String}, IsDeclarable name →
      ∀ mark ∈ markers.map fun marker => ([name], marker), ∀ part ∈ mark.1, Name.IsPart part := by
    intro name markers hname mark hmark
    obtain ⟨marker, -, rfl⟩ := List.mem_map.mp hmark
    exact List.forall_mem_singleton.mpr (Name.isPart_of_isIdentifier hname.1)
  intro mark hmark
  cases h with
  | struct hn | enum hn => exact hdeclared hn mark hmark
  | @implementation trait type _ _ ht =>
    cases trait with
    | none => cases hmark
    | some trait =>
      cases type with
      | path self =>
        rw [marked] at hmark
        split at hmark
        · obtain rfl := List.mem_singleton.mp hmark
          intro part hpart
          obtain ⟨segment, hsegment, rfl⟩ := List.mem_map.mp hpart
          exact Name.isPart_of_isIdentifier (ht segment hsegment)
        · cases hmark
      | _ => cases hmark
  | _ => cases hmark

theorem Capability.marks_eq (scope : Scope) (item : Item) :
    marks scope item = item.marked.map fun mark => (scope.resolve (Name.join mark.1), mark.2) := by
  cases item with
  | implementation trait type inner members =>
    cases trait with
    | none => rfl
    | some trait =>
      cases type with
      | path self =>
        rw [marks, Item.marked]
        cases trait.last? <;> rfl
      | _ => rfl
  | struct | enum =>
    simp only [marks, Item.marked, List.map_map, Function.comp_def, Name.join_singleton]
  | _ => rfl

/-- Something in the scope says of what is written so that it has a trait of the capability. -/
def Scope.Marks (scope : Scope) (conventions : Capability.Conventions) (capability : Capability)
    (written : List String) : Prop :=
  ∃ item ∈ scope.items, ∃ marker ∈ conventions.markers capability, (written, marker) ∈ item.marked

namespace CapabilityIndex

/-- A capability has an entry for a name: the name is listed for it, or something that is marked
somewhere resolves to the name there. -/
def IsEntry (scopes : List Scope) (conventions : Capability.Conventions) (capability : Capability)
    (name : String) : Prop :=
  name ∈ conventions.listed capability ∨
    ∃ scope ∈ scopes, ∃ item ∈ scope.items, ∃ marker ∈ conventions.markers capability,
      (name, marker) ∈ Capability.marks scope item

section

variable (scopes : List Scope) (conventions : Capability.Conventions) (capability : Capability)

theorem mem_types (name : String) : name ∈ (ofScopes scopes conventions).types capability ↔
    IsEntry scopes conventions capability name := by
  have hmarked :
      name ∈ ((scopes.flatMap fun scope => scope.items.flatMap (Capability.marks scope)).filter
            fun mark => (conventions.markers capability).contains mark.2).map Prod.fst ↔
        ∃ scope ∈ scopes, ∃ item ∈ scope.items, ∃ marker ∈ conventions.markers capability,
          (name, marker) ∈ Capability.marks scope item := by
    simp only [List.mem_map, List.mem_filter, List.mem_flatMap, List.contains_iff_mem]
    constructor
    · rintro ⟨⟨_, marker⟩, ⟨⟨scope, hscope, item, hitem, hmark⟩, hmarker⟩, rfl⟩
      exact ⟨scope, hscope, item, hitem, marker, hmarker, hmark⟩
    · rintro ⟨scope, hscope, item, hitem, marker, hmarker, hmark⟩
      exact ⟨(name, marker), ⟨⟨scope, hscope, item, hitem, hmark⟩, hmarker⟩, rfl⟩
  rw [ofScopes, NameSet.mem_ofList, List.mem_append, hmarked, IsEntry, or_comm]

theorem isEntry_iff (name : String) : IsEntry scopes conventions capability name ↔
    name ∈ conventions.listed capability ∨ ∃ scope ∈ scopes, ∃ written,
      scope.Marks conventions capability written ∧ scope.resolve (Name.join written) = name := by
  refine or_congr_right (exists_congr fun scope => and_congr_right fun _ => ?_)
  constructor
  · rintro ⟨item, hitem, marker, hmarker, hmark⟩
    rw [Capability.marks_eq] at hmark
    obtain ⟨mark, hmarked, heq⟩ := List.mem_map.mp hmark
    obtain ⟨hname, rfl⟩ := Prod.mk.inj heq
    exact ⟨mark.1, ⟨item, hitem, mark.2, hmarker, hmarked⟩, hname⟩
  · rintro ⟨written, ⟨item, hitem, marker, hmarker, hmark⟩, hname⟩
    refine ⟨item, hitem, marker, hmarker, ?_⟩
    rw [Capability.marks_eq]
    exact List.mem_map.mpr ⟨_, hmark, Prod.ext hname rfl⟩

theorem has_of_isEntry {name : String} (h : IsEntry scopes conventions capability name) :
    (ofScopes scopes conventions).has name capability = true := by
  rw [has, Bool.or_eq_true, List.contains_iff_mem]
  exact .inl ((mem_types scopes conventions capability name).mpr h)

theorem has_below (module : String) {name : String} (h : Name.IsPart name) :
    (ofScopes scopes conventions).has (module ++ "::" ++ name) capability = true ↔
      IsEntry scopes conventions capability (module ++ "::" ++ name) ∨
        IsEntry scopes conventions capability name := by
  have hshort : Name.short (module ++ "::" ++ name) = name := Name.short_append module h
  have hqualified := Name.isQualified_append module name
  rw [has, hshort, hqualified, ← mem_types, ← mem_types]
  simp only [Bool.not_true, Bool.false_and, Bool.or_false, Bool.or_eq_true, List.contains_iff_mem,
    List.any_eq_true, Bool.and_eq_true, Bool.not_eq_true', beq_iff_eq]
  refine or_congr_right ?_
  constructor
  · rintro ⟨entry, hm, -, rfl⟩
    exact hm
  · intro hm
    exact ⟨name, hm, Name.isQualified_part h, rfl⟩

end

section

variable {tree : FileTree} {sourceDir : String} {files : List ParsedFile}
  {conventions : Capability.Conventions} {capability : Capability}
  (hfiles : Scan.sources tree sourceDir = .ok files)
include hfiles

theorem isPart_of_marks {scope : Scope} (hscope : scope ∈ files.flatMap Scope.ofFile)
    {written : List String} (h : scope.Marks conventions capability written) :
    ∀ part ∈ written, Name.IsPart part := by
  obtain ⟨item, hitem, _, -, hmark⟩ := h
  exact Item.isPart_marked (Scope.named_of_mem_sources hfiles hscope item hitem) _ hmark

theorem faithful_of_mem {scope : Scope} (hscope : scope ∈ files.flatMap Scope.ofFile) :
    scope.Faithful ∧ scope.module ≠ [] := by
  obtain ⟨file, -, hfile⟩ := List.mem_flatMap.mp hscope
  obtain ⟨modules, hmodule⟩ := Scope.exists_module_eq hfiles hscope
  exact ⟨Scope.faithful_of_mem_ofFile hfile, hmodule ▸ List.cons_ne_nil _ _⟩

theorem resolve_eq_of_reaches {scope : Scope} (hscope : scope ∈ files.flatMap Scope.ofFile)
    {written : List String} (hparts : ∀ part ∈ written, Name.IsPart part) {name : String}
    (h : scope.Reaches written name) : scope.resolve (Name.join written) = name := by
  obtain ⟨hfaithful, hmodule⟩ := faithful_of_mem hfiles hscope
  exact h.resolve_eq hfaithful hmodule hparts

/-- A mark counts for the name that its type means where it stands. -/
theorem has_of_reaches {scope : Scope} (hscope : scope ∈ files.flatMap Scope.ofFile)
    {written : List String} (hmarks : scope.Marks conventions capability written) {name : String}
    (h : scope.Reaches written name) : (build files conventions).has name capability = true := by
  have hresolve : scope.resolve (Name.join written) = name :=
    resolve_eq_of_reaches hfiles hscope (isPart_of_marks hfiles hscope hmarks) h
  have hentry : IsEntry (files.flatMap Scope.ofFile) conventions capability name :=
    (isEntry_iff _ _ _ _).mpr (.inr ⟨scope, hscope, written, hmarks, hresolve⟩)
  exact has_of_isEntry _ _ _ hentry

/-- A name in a module of the project has an entry if it is listed, and if a mark stands in a scope
with a type that is written in one of the ways that mean the name there. -/
theorem isEntry_iff_reaches (name : String) :
    IsEntry (files.flatMap Scope.ofFile) conventions capability ("crate" ++ "::" ++ name) ↔
      "crate" ++ "::" ++ name ∈ conventions.listed capability ∨
        ∃ scope ∈ files.flatMap Scope.ofFile, ∃ written,
          scope.Marks conventions capability written ∧
            scope.Reaches written ("crate" ++ "::" ++ name) := by
  rw [isEntry_iff]
  refine or_congr_right (exists_congr fun scope => and_congr_right fun hscope =>
    exists_congr fun written => and_congr_right fun hmarks => ?_)
  obtain ⟨hfaithful, hmodule⟩ := faithful_of_mem hfiles hscope
  exact Scope.resolve_eq_iff_reaches hfaithful hmodule (isPart_of_marks hfiles hscope hmarks) name

end

def contextAt (index : CapabilityIndex) (scope : Scope) (rules : Handler.Conventions)
    (self : Option String) : Handler.Context :=
  ⟨scope, index, rules, self⟩

theorem declaredType?_of_reaches {tree : FileTree} {sourceDir : String} {files : List ParsedFile}
    (hfiles : Scan.sources tree sourceDir = .ok files) {c : Handler.Context}
    (hscope : c.scope ∈ files.flatMap Scope.ofFile) {path : Path} (hnamed : path.Named)
    {type : String} (hwritten : c.scope.Reaches path.names type)
    (hself : path.names.head? ≠ some "Self") (hlast : ∀ last ∈ path.names.getLast?,
      Handler.isTransparentType c last = false ∧ Name.isNative last = false) :
    Handler.declaredType? c (.path path) = some type := by
  have hparts : ∀ part ∈ path.names, Name.IsPart part := by
    intro part hpart
    obtain ⟨segment, hsegment, rfl⟩ := List.mem_map.mp hpart
    exact Name.isPart_of_isIdentifier (hnamed segment hsegment)
  have hresolve : c.resolve path.text = type :=
    (c.resolve_of_head hparts hself).trans (resolve_eq_of_reaches hfiles hscope hparts hwritten)
  rw [Handler.declaredType?_path]
  cases hend : path.names.getLast? with
  | none =>
    rw [List.getLast?_eq_none_iff.mp hend] at hwritten
    cases hwritten
  | some last =>
    obtain ⟨htransparent, hnative⟩ := hlast last hend
    rw [Option.bind_some, htransparent, hnative, hresolve]
    rfl

/-- What becomes of the capabilities of a type that a module imports. The type has one name where
it is declared and another in the module. -/
structure Reexported (files : List ParsedFile) (conventions : Capability.Conventions)
    (importing : Scope) (name declared imported : String) : Prop where
  reaches : importing.Reaches [name] declared
  resolve_eq : importing.resolve name = declared
  /-- Where what is written means the type as it is declared, beside the import and beside the
  declaration too, a mark counts for that name and not for the imported one. -/
  marks : ∀ scope ∈ files.flatMap Scope.ofFile, ∀ written, scope.Reaches written declared →
    ∀ capability, scope.Marks conventions capability written →
      (build files conventions).has declared capability = true ∧
        (declared ≠ imported → ¬ scope.Reaches written imported)
  /-- Either name has an entry if it is listed, and if a mark stands where that name is meant. -/
  entries : ∀ type ∈ [declared, imported], ∀ capability,
    IsEntry (files.flatMap Scope.ofFile) conventions capability type ↔
      type ∈ conventions.listed capability ∨ ∃ scope ∈ files.flatMap Scope.ofFile, ∃ written,
        scope.Marks conventions capability written ∧ scope.Reaches written type
  has_eq_iff : ∀ capability, (build files conventions).has imported capability =
      (build files conventions).has declared capability ↔
    IsEntry (files.flatMap Scope.ofFile) conventions capability name ∨
      (IsEntry (files.flatMap Scope.ofFile) conventions capability imported ↔
        IsEntry (files.flatMap Scope.ofFile) conventions capability declared)
  /-- A type that is declared for a parameter in one of the ways that mean a name, has that name. -/
  declares : ∀ type ∈ [declared, imported], ∀ scope ∈ files.flatMap Scope.ofFile, ∀ path : Path,
    path.Named → scope.Reaches path.names type → path.names.head? ≠ some "Self" →
      ∀ (rules : Handler.Conventions) (self : Option String), (∀ last ∈ path.names.getLast?,
        Handler.isTransparentType ((build files conventions).contextAt scope rules self) last =
            false ∧ Name.isNative last = false) →
        Handler.declaredType? ((build files conventions).contextAt scope rules self) (.path path) =
          some type
  /-- What a routine makes of a name is what its entries say. -/
  follows : ∀ type ∈ [declared, imported], ∀ (scope : Scope) (rules : Handler.Conventions)
    (self : Option String) (f : Function),
    (Handler.ofFunction ((build files conventions).contextAt scope rules self) f).Follows
      ((build files conventions).has type) type
  /-- Of two modules one knows the type under its declared name and one under the imported name. A
  routine is described alike in both if names that stand for the same there are told alike. -/
  handlers : ∀ (near far : Scope) (rules : Handler.Conventions) (self self' : Option String),
    near.Alike far declared imported →
      Option.Rel (near.Counterpart far declared imported) self self' →
      (∀ type type', near.Counterpart far declared imported type type' →
        (build files conventions).classifier.Agree (build files conventions) type type') →
      ∀ f, (Handler.ofFunction ((build files conventions).contextAt near rules self) f).Alike
        (near.Counterpart far declared imported)
        (Handler.ofFunction ((build files conventions).contextAt far rules self') f)

/-- A module imports a type under its own name from another module of the project. -/
theorem has_reexported {tree : FileTree} {sourceDir : String} {files : List ParsedFile}
    {importing : Scope} {before after : List (List String × String)} {written module : List String}
    {name : String} (hfiles : Scan.sources tree sourceDir = .ok files)
    (himporting : importing ∈ files.flatMap Scope.ofFile)
    (himport : Item.bindings importing.items = before ++ (written, name) :: after)
    (hlast : name ∉ after.map Prod.snd) (hname : name ∉ Scope.starts)
    (hleads : Imports.LeadsTo importing.module written ("crate" :: module ++ [name]))
    (conventions : Capability.Conventions) :
    Reexported files conventions importing name (Name.join ("crate" :: module) ++ "::" ++ name)
      (importing.moduleName ++ "::" ++ name) := by
  have hspelled : UseTree.Spelled (written, name) := by
    apply Item.spelled_bindings (Scope.named_of_mem_sources hfiles himporting)
    rw [himport]
    exact List.mem_append_right _ List.mem_cons_self
  have hpart : Name.IsPart name := Name.isPart_of_isIdentifier hspelled.2
  have hreaches : importing.Reaches [name] (Name.join ("crate" :: module) ++ "::" ++ name) := by
    have himported : importing.Reaches [name] (Name.join ("crate" :: module ++ [name] ++ [])) :=
      .imported hname himport hlast hleads
    rwa [List.append_nil, Name.join_concat name (List.cons_ne_nil _ _)] at himported
  have hroot : ∀ type ∈ [Name.join ("crate" :: module) ++ "::" ++ name,
      importing.moduleName ++ "::" ++ name], ∃ below, type = "crate" ++ "::" ++ below := by
    obtain ⟨modules, hroot⟩ := Scope.exists_module_eq hfiles himporting
    rw [Scope.moduleName, hroot]
    simp only [List.forall_mem_cons]
    exact ⟨Name.exists_below_root module name, Name.exists_below_root modules name, by simp⟩
  refine ⟨hreaches, ?_, ?_, ?_, ?_, ?_, ?_, ?_⟩
  · have hresolve := resolve_eq_of_reaches hfiles himporting (by simpa using hpart) hreaches
    rwa [Name.join_singleton] at hresolve
  · intro scope hscope written hdeclared capability hmarks
    have hresolve : ∀ {type}, scope.Reaches written type →
        scope.resolve (Name.join written) = type :=
      resolve_eq_of_reaches hfiles hscope (isPart_of_marks hfiles hscope hmarks)
    exact ⟨has_of_reaches hfiles hscope hmarks hdeclared,
      fun hne himported => hne ((hresolve hdeclared).symm.trans (hresolve himported))⟩
  · intro type htype capability
    obtain ⟨below, rfl⟩ := hroot type htype
    exact isEntry_iff_reaches hfiles below
  · intro capability
    rw [build, Bool.eq_iff_iff, has_below _ _ _ _ hpart, has_below _ _ _ _ hpart]
    by_cases hshort : IsEntry (files.flatMap Scope.ofFile) conventions capability name
      <;> simp [hshort]
  · exact fun type _ scope hscope path hnamed hwritten hself rules self hlast =>
      declaredType?_of_reaches hfiles hscope hnamed hwritten hself hlast
  · intro type htype scope rules self f
    obtain ⟨below, rfl⟩ := hroot type htype
    exact Handler.ofFunction_follows ((build files conventions).contextAt scope rules self)
      (Name.not_isNative_root below) f
  · intro near far rules self self' halike hself hagree f
    exact Handler.ofFunction_imported rules halike hself hagree f

-- a module exports both types, and another says of one of them what its declaration says
def shared : FileTree :=
  .directory [("src", .directory [
      ("a.rs", .file (some "use crate::m::T;")),
      ("b.rs", .file (some "use crate::n::T; impl Entity for T \x7b\x7d")),
      ("lib.rs", .file (some "mod a; mod b; mod m; mod n;")),
      ("m.rs", .file (some "#[derive(Model)] struct S; #[derive(Model)] struct T;")),
      ("n.rs", .file (some "pub use crate::m::{S, T};"))])]

def sharedFiles : List ParsedFile := (Scan.sources shared "src").toOption.getD []

def sharedMarks : List (String × String) :=
  [("crate::n::T", "Entity"), ("crate::m::S", "Model"), ("crate::m::T", "Model")]

def sharedTypes : Capability → NameSet
  | .domainObject => ["crate::m::S", "crate::m::T", "crate::n::T"]
  | _ => []

def isDeclaring (scope : Scope) : Bool :=
  scope.module = ["crate", "m"] ∧ scope.defines "S" = true

def isImporting (scope : Scope) : Bool :=
  scope.module = ["crate", "n"] ∧ Item.bindings scope.items =
    [(["crate", "m", "S"], "S"), (["crate", "m", "T"], "T")]

/-- A module of this name that imports the type from there, and declares no modules. -/
def isUsing (name type : String) (scope : Scope) : Bool :=
  scope.module = ["crate", name] ∧ scope.imports = [("T", type)] ∧ scope.modules = []

def isShared (files : List ParsedFile) : Bool :=
  let scopes := files.map fun file => Scope.ofItems file.path file.module file.items
  files.all (fun file => Scope.isFlat file.items) &&
    (scopes.any isDeclaring && scopes.any isImporting) &&
    (scopes.any (isUsing "a" "crate::m::T") && scopes.any (isUsing "b" "crate::n::T")) &&
    decide ((scopes.flatMap fun scope => scope.items.flatMap (Capability.marks scope)) =
      sharedMarks)

-- the text is read in one evaluation, and all else is taken from it
theorem sources_shared :
    Scan.sources shared "src" = .ok sharedFiles ∧ isShared sharedFiles = true := by
  have hread : (Scan.sources shared "src").toOption.any isShared = true := by decide +kernel
  rw [sharedFiles]
  obtain ⟨files, hfiles, hshared⟩ := SourceTree.exists_ok_of_any hread
  rw [hfiles]
  exact ⟨rfl, hshared⟩

theorem of_isShared {files : List ParsedFile} (h : isShared files = true) :
    (∃ declaring ∈ files.flatMap Scope.ofFile, isDeclaring declaring = true) ∧
      (∃ importing ∈ files.flatMap Scope.ofFile, isImporting importing = true) ∧
      (∃ near ∈ files.flatMap Scope.ofFile, isUsing "a" "crate::m::T" near = true) ∧
      (∃ far ∈ files.flatMap Scope.ofFile, isUsing "b" "crate::n::T" far = true) ∧
      ∀ capability, (build files {}).types capability = sharedTypes capability := by
  simp only [isShared, Bool.and_eq_true] at h
  obtain ⟨⟨⟨hflat, hdeclaring, himporting⟩, hnear, hfar⟩, hmarks⟩ := h
  rw [build, Scope.flatMap_ofFile hflat]
  refine ⟨List.any_eq_true.mp hdeclaring, List.any_eq_true.mp himporting,
    List.any_eq_true.mp hnear, List.any_eq_true.mp hfar, fun capability => ?_⟩
  rw [ofScopes]
  dsimp only
  rw [of_decide_eq_true hmarks]
  cases capability <;> rfl

theorem has_root {index : CapabilityIndex} {capability : Capability}
    (h : ∀ entry ∈ index.types capability, Name.isQualified entry = true) (below : String) :
    index.has ("crate" ++ "::" ++ below) capability =
      (index.types capability).contains ("crate" ++ "::" ++ below) := by
  have hqualified := Name.isQualified_append "crate" below
  have hshort : ((index.types capability).any fun n =>
      (!Name.isQualified n && n == Name.short ("crate" ++ "::" ++ below)) ||
        (!Name.isQualified ("crate" ++ "::" ++ below) &&
          Name.short n == Name.short ("crate" ++ "::" ++ below))) = false := by
    rw [List.any_eq_false, hqualified]
    intro entry hentry
    simp [h entry hentry]
  rw [has, hshort, Bool.or_false]

theorem agree_of_entries {index : CapabilityIndex} {below below' : String}
    (h : ∀ capability, ∀ entry ∈ index.types capability, Name.isQualified entry = true)
    (hentries : ∀ capability, "crate" ++ "::" ++ below ∈ index.types capability ↔
      "crate" ++ "::" ++ below' ∈ index.types capability) :
    index.classifier.Agree index ("crate" ++ "::" ++ below) ("crate" ++ "::" ++ below') := by
  refine ⟨fun capability => ?_, ?_, ?_⟩
  · change index.has _ capability = index.has _ capability
    rw [has_root (h capability), has_root (h capability), Bool.eq_iff_iff, List.contains_iff_mem,
      List.contains_iff_mem, hentries]
  · rw [Name.not_isNative_root, Name.not_isNative_root]
  · simp

/-- What the names that stand for the same in the two modules begin with. -/
def beginnings : List (String × String) :=
  [("m::T", "n::T"), ("a", "b")]

theorem exists_beginning {near far : Scope} {type type' : String}
    (hnear : near.module = ["crate", "a"]) (hfar : far.module = ["crate", "b"])
    (h : near.Counterpart far "crate::m::T" "crate::n::T" type type') :
    type = type' ∨ ∃ start ∈ beginnings, ∃ tail,
      type = "crate" ++ "::" ++ (start.1 ++ tail) ∧
        type' = "crate" ++ "::" ++ (start.2 ++ tail) := by
  induction h with
  | same => exact .inl rfl
  | imported => exact .inr ⟨_, List.mem_cons_self, "", by decide⟩
  | @relative first rest hfirst =>
    rw [hnear, hfar]
    obtain rfl | rfl := hfirst
    · refine .inr ⟨("a", "b"), by decide, ?_⟩
      by_cases hrest : rest = []
      · exact ⟨"", by rw [hrest]; decide⟩
      · have htarget : ∀ name, Imports.target ["crate", name] ("self" :: rest) =
            "crate" ++ "::" ++ (name ++ ("::" ++ Name.join rest)) := by
          intro name
          rw [Imports.target, Imports.absolute, List.cons_append, List.cons_append, List.nil_append,
            Name.join_cons _ (List.cons_ne_nil _ _), Name.join_cons _ hrest]
          simp only [String.append_assoc]
        exact ⟨"::" ++ Name.join rest, htarget _, htarget _⟩
    · exact .inl rfl
  | within segment _ ih =>
    obtain rfl | ⟨start, hstart, tail, rfl, rfl⟩ := ih
    · exact .inl rfl
    · exact .inr ⟨start, hstart, tail ++ "::" ++ segment, by simp only [String.append_assoc], by
        simp only [String.append_assoc]⟩

theorem mem_sharedTypes {start : String × String} (h : start ∈ beginnings) (tail : String)
    (capability : Capability) : "crate" ++ "::" ++ (start.1 ++ tail) ∈ sharedTypes capability ↔
      "crate" ++ "::" ++ (start.2 ++ tail) ∈ sharedTypes capability := by
  cases capability with
  | domainObject =>
    simp only [sharedTypes, List.mem_cons, List.not_mem_nil, ← String.toList_inj]
    obtain rfl | rfl : start = _ ∨ start = _ := by simpa [beginnings] using h
    · simp
    · simp
  | transformer | validator => simp [sharedTypes]

theorem agree_shared {near far : Scope} (hnear : near.module = ["crate", "a"])
    (hfar : far.module = ["crate", "b"]) {index : CapabilityIndex}
    (htypes : ∀ capability, index.types capability = sharedTypes capability)
    {type type' : String}
    (h : near.Counterpart far "crate::m::T" "crate::n::T" type type') :
    index.classifier.Agree index type type' := by
  have hqualified : ∀ capability, ∀ entry ∈ index.types capability,
      Name.isQualified entry = true := by
    intro capability
    rw [htypes]
    cases capability <;> decide
  obtain rfl | ⟨start, hstart, tail, rfl, rfl⟩ := exists_beginning hnear hfar h
  · exact ⟨fun _ => rfl, rfl, rfl⟩
  · refine agree_of_entries hqualified fun capability => ?_
    rw [htypes]
    exact mem_sharedTypes hstart tail capability

theorem has_reexported_shared : ∃ importing near far : Scope,
    importing ∈ sharedFiles.flatMap Scope.ofFile ∧ near ∈ sharedFiles.flatMap Scope.ofFile ∧
      far ∈ sharedFiles.flatMap Scope.ofFile ∧ isImporting importing = true ∧
      isUsing "a" "crate::m::T" near = true ∧
      isUsing "b" "crate::n::T" far = true ∧
      importing.resolve "T" = "crate::m::T" ∧
      (∀ capability, (build sharedFiles {}).has "crate::n::T" capability =
        (build sharedFiles {}).has "crate::m::T" capability) ∧
      ∀ f, (Handler.ofFunction ((build sharedFiles {}).contextAt near {} none) f).Alike
        (near.Counterpart far "crate::m::T" "crate::n::T")
        (Handler.ofFunction ((build sharedFiles {}).contextAt far {} none) f) := by
  obtain ⟨hsources, hshared⟩ := sources_shared
  obtain ⟨-, ⟨importing, hm, himporting⟩, ⟨near, hnear, hnearUses⟩, ⟨far, hfar, hfarUses⟩,
      htypes⟩ := of_isShared hshared
  obtain ⟨hmodule, himport⟩ := of_decide_eq_true himporting
  have hbindings : Item.bindings importing.items =
      [(["crate", "m", "S"], "S")] ++ (["crate", "m", "T"], "T") :: [] :=
    himport
  have hleads : Imports.LeadsTo importing.module ["crate", "m", "T"]
      ("crate" :: ["m"] ++ ["T"]) :=
    .root ["m", "T"]
  have hreexported :=
    has_reexported hsources hm hbindings List.not_mem_nil (by decide) hleads {}
  have hname : importing.moduleName ++ "::" ++ "T" = "crate::n::T" := by
    rw [Scope.moduleName, hmodule]
    rfl
  have hdeclared : Name.join ("crate" :: ["m"]) ++ "::" ++ "T" = "crate::m::T" :=
    rfl
  rw [hname, hdeclared] at hreexported
  obtain ⟨hnearModule, hnearImports, hnearModules⟩ := of_decide_eq_true hnearUses
  obtain ⟨hfarModule, hfarImports, hfarModules⟩ := of_decide_eq_true hfarUses
  have halike : near.Alike far "crate::m::T" "crate::n::T" := by
    refine ⟨hnearModules.trans hfarModules.symm, fun name => ?_⟩
    rw [hnearImports, hfarImports, Table.get?_cons, Table.get?_cons]
    split
    · exact .some .imported
    · exact .none
  refine ⟨importing, near, far, hm, hnear, hfar, himporting, hnearUses, hfarUses,
    hreexported.resolve_eq, fun capability => (hreexported.has_eq_iff capability).mpr (.inr ?_), ?_⟩
  · rw [← mem_types, ← mem_types]
    change _ ∈ (build sharedFiles {}).types capability ↔ _ ∈ (build sharedFiles {}).types capability
    rw [htypes]
    cases capability <;> decide
  · exact hreexported.handlers near far {} none none halike .none
      fun type type' => agree_shared hnearModule hfarModule htypes

/-- A type may have a capability under the name where it is declared and not under the name of a
module that imports it. -/
theorem not_has_reexported : ¬ ∀ (tree : FileTree) (sourceDir : String) (files : List ParsedFile)
    (declaring importing : Scope) (before after : List (List String × String)) (written :
    List String) (name : String) (conventions : Capability.Conventions) (capability : Capability),
    Scan.sources tree sourceDir = .ok files → declaring ∈ files.flatMap Scope.ofFile →
      importing ∈ files.flatMap Scope.ofFile → declaring.defines name = true →
      Item.bindings importing.items = before ++ (written, name) :: after →
      name ∉ after.map Prod.snd →
      Imports.LeadsTo importing.module written (declaring.module ++ [name]) →
      (build files conventions).has (importing.moduleName ++ "::" ++ name) capability =
        (build files conventions).has (declaring.moduleName ++ "::" ++ name) capability := by
  intro h
  obtain ⟨hsources, hshared⟩ := sources_shared
  obtain ⟨⟨declaring, hm, hdeclaring⟩, ⟨importing, hn, himporting⟩, -, -, htypes⟩ :=
    of_isShared hshared
  obtain ⟨hdeclared, hdefines⟩ := of_decide_eq_true hdeclaring
  obtain ⟨himported, himport⟩ := of_decide_eq_true himporting
  have hbindings : Item.bindings importing.items =
      [] ++ (["crate", "m", "S"], "S") :: [(["crate", "m", "T"], "T")] :=
    himport
  have hleads : Imports.LeadsTo importing.module ["crate", "m", "S"]
      (declaring.module ++ ["S"]) := by
    rw [hdeclared]
    exact .root ["m", "S"]
  have heq := h shared "src" sharedFiles declaring importing [] _ _ "S" {} .domainObject hsources
    hm hn hdefines hbindings (by decide) hleads
  have hthere : importing.moduleName ++ "::" ++ "S" = "crate" ++ "::" ++ "n::S" := by
    rw [Scope.moduleName, himported]
    rfl
  have hhere : declaring.moduleName ++ "::" ++ "S" = "crate" ++ "::" ++ "m::S" := by
    rw [Scope.moduleName, hdeclared]
    rfl
  have hqualified : ∀ entry ∈ (build sharedFiles {}).types .domainObject,
      Name.isQualified entry = true := by
    rw [htypes]
    decide
  rw [hthere, hhere, has_root hqualified, has_root hqualified, htypes] at heq
  revert heq
  decide

end ApiContract.CapabilityIndex
