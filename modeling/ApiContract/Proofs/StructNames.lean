import ApiContract.Proofs.CapabilityNames
import ApiContract.Struct.Index

namespace ApiContract

open Source

namespace Scope

variable {scope : Scope} {attributes : List Attribute} {name : String} {fields : Fields}
  {inner : List Expr}

/-- What a name means in a module that declares it and does not import it. -/
def ownMeaning (scope : Scope) (name : String) : String :=
  if Name.isPrelude name then name else scope.moduleName ++ "::" ++ name

theorem isDeclarable_struct (hnamed : ∀ item ∈ scope.items, item.Named)
    (hitem : .struct attributes name fields inner ∈ scope.items) : IsDeclarable name := by
  cases hnamed _ hitem with
  | struct hname => exact hname

theorem resolve_own (hname : IsDeclarable name) (halias : scope.alias? name = none) :
    scope.resolve name = scope.ownMeaning name := by
  have hsegments : Name.segments name = [name] :=
    Name.segments_part (Name.isPart_of_isIdentifier hname.1)
  rw [scope.resolve_of_segments hsegments (not_mem_starts hname), halias]
  simp [ownMeaning, Name.join_singleton]

theorem defines_struct (hitem : .struct attributes name fields inner ∈ scope.items) :
    scope.defines name = true := by
  rw [defines, List.any_eq_true]
  exact ⟨_, hitem, by simp⟩

end Scope

namespace Structs

/-- A struct is kept under its name, and what is kept under a name is a struct of that name. -/
theorem exists_get?_ofScopes {scopes : List Scope} {s : Struct}
    (h : s ∈ scopes.flatMap Struct.ofScope) :
    ∃ definition, (ofScopes scopes).get? s.name = some definition ∧ definition.name = s.name := by
  have hkey : s.name ∈ ((scopes.flatMap Struct.ofScope).map fun s => (s.name, s)).map Prod.fst := by
    rw [List.map_map]
    exact List.mem_map_of_mem h
  obtain ⟨definition, hget, hm⟩ := Table.exists_get?_ofList hkey
  obtain ⟨other, -, he⟩ := List.mem_map.mp hm
  obtain ⟨hname, rfl⟩ := Prod.mk.inj he
  exact ⟨other, hget, hname⟩

theorem name_ofFields (scope : Scope) (name : String) (fields : Fields) :
    (Struct.ofFields scope name fields).name = name := by
  cases fields <;> rfl

theorem mem_ofScope {scope : Scope} {attributes : List Attribute} {name : String} {fields : Fields}
    {inner : List Expr} (hitem : .struct attributes name fields inner ∈ scope.items) :
    Struct.ofFields scope (scope.moduleName ++ "::" ++ name) fields ∈ Struct.ofScope scope :=
  List.mem_filterMap.mpr ⟨_, hitem, rfl⟩

end Structs

section

variable {tree : FileTree} {sourceDir : String} {files : List ParsedFile} {scope : Scope}
  {attributes : List Attribute} {name : String} {fields : Fields} {inner : List Expr}

/-- A struct that its module does not import under the same name has one name in every part of the
analysis, but for what its module takes for a name of the prelude: its definition is kept under its
module and its name, and there it is located; it resolves, and is marked, under what its name
means. -/
theorem Scope.struct_named_once (hfiles : Scan.sources tree sourceDir = .ok files)
    (hscope : scope ∈ files.flatMap Scope.ofFile)
    (hitem : .struct attributes name fields inner ∈ scope.items)
    (halias : scope.alias? name = none) :
    scope.resolve name = scope.ownMeaning name ∧ (∃ definition,
        (Structs.ofFiles files).get? (scope.moduleName ++ "::" ++ name) = some definition ∧
          definition.name = scope.moduleName ++ "::" ++ name) ∧
      Capability.marks scope (.struct attributes name fields inner) =
        (Capability.derives attributes).map (fun marker => (scope.ownMeaning name, marker)) ∧
      (∀ conventions capability, ∀ marker ∈ Capability.derives attributes,
        marker ∈ conventions.markers capability →
          scope.ownMeaning name ∈ (CapabilityIndex.build files conventions).types capability) ∧
      scope.defines name = true ∧
      ∀ found, SourceTree.Asks ⟨tree, sourceDir⟩ (scope.moduleName ++ "::" ++ name) found name →
        found.module = scope.module → found.defines name = true →
        SourceTree.locate ⟨tree, sourceDir⟩ (scope.moduleName ++ "::" ++ name) =
          .ok ⟨found, .type name, scope.moduleName ++ "::" ++ name⟩ := by
  have hname : IsDeclarable name := isDeclarable_struct (named_of_mem_sources hfiles hscope) hitem
  have hresolve : scope.resolve name = scope.ownMeaning name := resolve_own hname halias
  have hmarks : Capability.marks scope (.struct attributes name fields inner) =
      (Capability.derives attributes).map fun marker => (scope.ownMeaning name, marker) := by
    rw [Capability.marks, hresolve]
  refine ⟨hresolve, ?_, hmarks, ?_, defines_struct hitem, ?_⟩
  · have hmem := List.mem_flatMap.mpr ⟨scope, hscope, Structs.mem_ofScope hitem⟩
    obtain ⟨definition, hget, hdefinition⟩ := Structs.exists_get?_ofScopes hmem
    rw [Structs.name_ofFields] at hget hdefinition
    exact ⟨definition, hget, hdefinition⟩
  · intro conventions capability marker hmarker hmarks'
    rw [CapabilityIndex.build, CapabilityIndex.mem_types]
    refine Or.inr ⟨scope, hscope, _, hitem, marker, hmarks', ?_⟩
    rw [hmarks]
    exact List.mem_map_of_mem hmarker
  · intro found hasks hmodule hdefines
    have hcanonical : found.moduleName = scope.moduleName := congrArg Name.join hmodule
    rw [SourceTree.locate, SourceTree.locateWithin_of_defines hasks hdefines, hcanonical]

end

def structTree : FileTree :=
  .directory [("src", .directory [("lib.rs", .file (some
      ("#[derive(Model)] pub struct User; pub struct Result; " ++
        "mod m \x7b\x7d mod m \x7b pub struct S; \x7d")))])]

def structFiles : List ParsedFile := (Scan.sources structTree "src").toOption.getD []

def hasStructs : List ParsedFile → Bool
  | [⟨_, module, [.struct attributes "User" _ _, .struct _ "Result" _ _, .module "m" (some []),
      .module "m" (some [.struct _ "S" _ _])]⟩] =>
    module = ["crate"] && Capability.derives attributes = ["Model"]
  | _ => false

theorem of_hasStructs {files : List ParsedFile} (h : hasStructs files = true) : ∃ path attributes
    userFields userInner attributes' fields inner attributes'' moreFields moreInner,
    files = [⟨path, ["crate"], [.struct attributes "User" userFields userInner,
            .struct attributes' "Result" fields inner, .module "m" (some []),
            .module "m" (some [.struct attributes'' "S" moreFields moreInner])]⟩] ∧
      Capability.derives attributes = ["Model"] := by
  unfold hasStructs at h
  split at h
  · simp only [Bool.and_eq_true, decide_eq_true_eq] at h
    obtain ⟨rfl, hderives⟩ := h
    exact ⟨_, _, _, _, _, _, _, _, _, _, rfl, hderives⟩
  · cases h

-- the text is read in one evaluation: what stands in it, the modules that are found for two of the
-- names, and that the struct in the second module is not located
theorem evaluated_structTree : ((Scan.sources structTree "src").toOption.any hasStructs &&
      (SourceTree.scopeOf ⟨structTree, "src"⟩ "crate::User" []).toOption.any
        (fun found => found.module = ["crate"] && found.defines "User") &&
      (SourceTree.scopeOf ⟨structTree, "src"⟩ "crate::m::S" ["m"]).toOption.any
        (fun found => found.module = ["crate", "m"]) &&
      (SourceTree.locate ⟨structTree, "src"⟩ "crate::m::S").toOption.isNone) =
    true := by
  decide +kernel

theorem sources_structTree :
    Scan.sources structTree "src" = .ok structFiles ∧ hasStructs structFiles = true := by
  have hread := evaluated_structTree
  simp only [Bool.and_eq_true] at hread
  rw [structFiles]
  obtain ⟨files, hfiles, hstructs⟩ := SourceTree.exists_ok_of_any hread.1.1.1
  rw [hfiles]
  exact ⟨rfl, hstructs⟩

def HasStruct (module : List String) (name : String) (p : List Attribute → Prop) : Prop :=
  ∃ scope ∈ structFiles.flatMap Scope.ofFile, scope.module = module ∧ scope.alias? name = none ∧
    ∃ attributes fields inner, .struct attributes name fields inner ∈ scope.items ∧ p attributes

theorem hasStruct_structTree :
    HasStruct ["crate"] "User" (fun attributes => Capability.derives attributes = ["Model"]) ∧
      HasStruct ["crate"] "Result" (fun _ => True) ∧
      HasStruct ["crate", "m"] "S" (fun _ => True) := by
  obtain ⟨path, attributes, userFields, userInner, attributes', fields, inner, attributes'',
      moreFields, moreInner, hfiles, hderives⟩ := of_hasStructs sources_structTree.2
  have hscopes : structFiles.flatMap Scope.ofFile =
      [Scope.ofItems path ["crate"] [.struct attributes "User" userFields userInner,
          .struct attributes' "Result" fields inner, .module "m" (some []),
          .module "m" (some [.struct attributes'' "S" moreFields moreInner])],
        Scope.ofItems path ["crate", "m"] [.struct attributes'' "S" moreFields moreInner],
        Scope.ofItems path ["crate", "m"] []] := by
    simp [hfiles, Scope.ofFile, Scope.nested]
  rw [HasStruct, HasStruct, HasStruct, hscopes]
  exact ⟨⟨_, List.mem_cons_self, rfl, rfl, _, _, _, List.mem_cons_self, hderives⟩,
    ⟨_, List.mem_cons_self, rfl, rfl, _, _, _, List.mem_cons_of_mem _ List.mem_cons_self, trivial⟩,
    ⟨_, List.mem_cons_of_mem _ List.mem_cons_self, rfl, rfl, _, _, _, List.mem_cons_self, trivial⟩⟩

/-- A marked struct is found under one name by all that ask for it. -/
theorem struct_named_user :
    (∃ definition, (Structs.ofFiles structFiles).get? "crate::User" = some definition ∧
        definition.name = "crate::User") ∧
      "crate::User" ∈ (CapabilityIndex.build structFiles {}).types .domainObject ∧
      ∃ found, SourceTree.locate ⟨structTree, "src"⟩ "crate::User" =
        .ok ⟨found, .type "User", "crate::User"⟩ := by
  obtain ⟨⟨scope, hscope, hmodule, halias, attributes, fields, inner, hitem, hderives⟩, -, -⟩ :=
    hasStruct_structTree
  have hread := evaluated_structTree
  simp only [Bool.and_eq_true] at hread
  obtain ⟨found, hscopeOf, hfound⟩ := SourceTree.exists_ok_of_any hread.1.1.2
  simp only [Bool.and_eq_true, decide_eq_true_eq] at hfound
  obtain ⟨-, hdefinition, -, hmarked, -, hlocate⟩ :=
    Scope.struct_named_once sources_structTree.1 hscope hitem halias
  have hname : scope.moduleName ++ "::" ++ "User" = "crate::User" := by
    rw [Scope.moduleName, hmodule]
    rfl
  have hmeaning : scope.ownMeaning "User" = "crate::User" := hname
  rw [hname] at hdefinition hlocate
  refine ⟨hdefinition, ?_, found, ?_⟩
  · rw [← hmeaning]
    exact hmarked {} .domainObject "Model" (by simp [hderives]) (by decide)
  · exact hlocate found ⟨by decide, [], by decide, hscopeOf⟩ (hfound.1.trans hmodule.symm) hfound.2

/-- A struct with a name of the prelude does not resolve to its own name, and of two modules of one
name in one file only the first is looked into. -/
theorem not_struct_named_once :
    ¬ (∀ (tree : FileTree) (sourceDir : String) (files : List ParsedFile) (scope : Scope)
        (attributes : List Attribute) (name : String) (fields : Fields) (inner : List Expr),
        Scan.sources tree sourceDir = .ok files → scope ∈ files.flatMap Scope.ofFile →
          .struct attributes name fields inner ∈ scope.items → scope.alias? name = none →
          scope.resolve name = scope.moduleName ++ "::" ++ name) ∧
      ¬ (∀ (tree : FileTree) (sourceDir : String) (files : List ParsedFile) (scope : Scope)
        (attributes : List Attribute) (name : String) (fields : Fields) (inner : List Expr),
        Scan.sources tree sourceDir = .ok files → scope ∈ files.flatMap Scope.ofFile →
          .struct attributes name fields inner ∈ scope.items → scope.alias? name = none →
          ∀ found, SourceTree.Asks ⟨tree, sourceDir⟩ (scope.moduleName ++ "::" ++ name) found name →
            found.module = scope.module →
            ∃ located, SourceTree.locate ⟨tree, sourceDir⟩ (scope.moduleName ++ "::" ++ name) =
              .ok located) := by
  obtain ⟨-, ⟨root, hroot, hcrate, hrootAlias, _, _, _, hresult, -⟩, inner, hinner, hm, hinnerAlias,
      _, _, _, hs, -⟩ := hasStruct_structTree
  constructor
  · intro h
    have hresolve := h structTree "src" structFiles root _ "Result" _ _ sources_structTree.1 hroot
      hresult hrootAlias
    have hmeaning : root.ownMeaning "Result" = "Result" := rfl
    rw [Scope.resolve_own ⟨by decide, Or.inl (by decide)⟩ hrootAlias, hmeaning,
      Scope.moduleName, hcrate] at hresolve
    exact absurd hresolve (by decide)
  · intro h
    have hread := evaluated_structTree
    simp only [Bool.and_eq_true] at hread
    obtain ⟨⟨-, hfound⟩, hnone⟩ := hread
    obtain ⟨found, hscopeOf, hfound⟩ := SourceTree.exists_ok_of_any hfound
    have hname : inner.moduleName ++ "::" ++ "S" = "crate::m::S" := by
      rw [Scope.moduleName, hm]
      rfl
    have hlocated := h structTree "src" structFiles inner _ "S" _ _ sources_structTree.1 hinner hs
      hinnerAlias found
    rw [hname] at hlocated
    obtain ⟨located, hlocate⟩ :=
      hlocated ⟨by decide, ["m"], by decide, hscopeOf⟩ ((of_decide_eq_true hfound).trans hm.symm)
    rw [hlocate] at hnone
    cases hnone

end ApiContract
