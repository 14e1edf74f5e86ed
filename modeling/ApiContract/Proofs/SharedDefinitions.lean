import ApiContract.Generation
import ApiContract.Proofs.Assembled
import ApiContract.Proofs.Scopes

namespace ApiContract

/-- An operation answers with nothing but a reference to the definition of a key. -/
def Document.RefersTo (d : Document) (uri : String) (verb : Verb) (key : String) : Prop :=
  ∃ operation status response, d.operation? uri verb = some operation ∧
    operation.responses = [(status, response)] ∧ response.schema = Schema.toDefinition key

namespace Assembler

variable (a : Assembler)

def shapeAt (routes : List Route) (uri : String) (verb : Verb) : Option Shape :=
  (endpoint? (a.grouping routes) uri verb).bind a.chosenShape

/-- Nothing with this key is shown before this path and verb, where paths come before verbs. -/
structure FirstWithKey (routes : List Route) (key uri : String) (verb : Verb) (shape : Shape) :
    Prop where
  shown : a.shapeAt routes uri verb = some shape
  named : shape.key? = some key
  first : ∀ u v other, a.shapeAt routes u v = some other → other.key? = some key →
    uri < u ∨ uri = u ∧ (verb.text < v.text ∨ verb = v)

theorem shapeAt_eq_some (routes : List Route) (uri : String) (verb : Verb) (shape : Shape) :
    a.shapeAt routes uri verb = some shape ↔
      ∃ e ∈ a.shown routes, e.uri = uri ∧ e.verb = verb ∧ a.chosenShape e = some shape := by
  rw [shapeAt, Option.bind_eq_some_iff]
  constructor
  · rintro ⟨e, he, hshape⟩
    obtain ⟨rfl, rfl, -⟩ := ((a.grouped routes).mem_iff uri verb e).mp he
    exact ⟨e, (a.mem_shown routes e).mpr he, rfl, rfl, hshape⟩
  · rintro ⟨e, he, rfl, rfl, hshape⟩
    exact ⟨e, (a.mem_shown routes e).mp he, hshape⟩

theorem shapeAt_of_mem {routes : List Route} {e : Endpoint} (h : e ∈ a.shown routes) :
    a.shapeAt routes e.uri e.verb = a.chosenShape e := by
  rw [shapeAt, (a.mem_shown routes e).mp h, Option.bind_some]

theorem get?_definitionsOf (routes : List Route) (key : String) :
    (a.definitionsOf routes).table.get? key =
      ((a.shown routes).find? fun e => a.chosenKey e = some key).bind fun e =>
        (a.chosenShape e).bind a.synthesizer.alone := by
  rw [definitionsOf, Synthesizer.get?_buildAll, List.find?_map, Option.bind_map]
  rfl

theorem firstWithKey_of_find? {routes : List Route} {key : String} {e : Endpoint} {shape : Shape}
    (h : ((a.shown routes).find? fun e => a.chosenKey e = some key) = some e)
    (hs : a.chosenShape e = some shape) : a.FirstWithKey routes key e.uri e.verb shape := by
  obtain ⟨hkey, before, after, hsplit, hbefore⟩ := List.find?_eq_some_iff_append.mp h
  have hm : e ∈ a.shown routes := by rw [hsplit]; simp
  refine ⟨by rw [a.shapeAt_of_mem hm, hs], by simpa [chosenKey, hs] using hkey, ?_⟩
  intro u v other hother hnamed
  obtain ⟨f, hf, rfl, rfl, hshape⟩ := (a.shapeAt_eq_some routes u v other).mp hother
  have hpairwise := (a.grouped routes).pairwise_inOrder
  rw [show inOrder (a.grouping routes) = before ++ e :: after from hsplit, List.pairwise_append]
    at hpairwise
  rw [hsplit, List.mem_append] at hf
  obtain hf | hf := hf
  · -- what stands before does not have the key
    exact absurd (hbefore f hf) (by simp [chosenKey, hshape, hnamed])
  · obtain rfl | hf := List.mem_cons.mp hf
    · exact Or.inr ⟨rfl, Or.inr rfl⟩
    · obtain hlt | ⟨hu, hlt⟩ := (List.pairwise_cons.mp hpairwise.2.1).1 f hf
      · exact Or.inl hlt
      · exact Or.inr ⟨hu, Or.inl hlt⟩

theorem refersTo_of_shapeAt {routes : List Route} {uri key : String} {verb : Verb} {shape : Shape}
    (hshape : a.shapeAt routes uri verb = some shape) (hkey : shape.key? = some key) :
    (a.assemble routes).1.RefersTo uri verb key := by
  obtain ⟨e, hm, hu, hv, he⟩ := (a.shapeAt_eq_some routes uri verb shape).mp hshape
  obtain ⟨status, response, hresponses, hschema⟩ := a.responses_operationOf e
  refine ⟨a.operationOf e, status, response, ?_, hresponses, ?_⟩
  · exact (a.operation?_eq_some routes uri verb _).mpr ⟨e, hm, hu, hv, rfl⟩
  · rw [hschema, he, Synthesizer.build_of_key _ _ hkey]

/-- An operation whose shape has a key refers to the definition of that key. This is the definition
that the first operation with such a shape has if nothing else is built. -/
theorem definition_of_first (routes : List Route) (uri : String) (verb : Verb) (shape : Shape)
    (key : String) (hshape : a.shapeAt routes uri verb = some shape)
    (hkey : shape.key? = some key) :
    (a.assemble routes).1.RefersTo uri verb key ∧ ∃ uri' verb' first schema,
        a.FirstWithKey routes key uri' verb' first ∧ a.synthesizer.alone first = some schema ∧
          (a.assemble routes).1.definitions.get? key = some schema := by
  refine ⟨a.refersTo_of_shapeAt hshape hkey, ?_⟩
  obtain ⟨e, hm, -, -, he⟩ := (a.shapeAt_eq_some routes uri verb shape).mp hshape
  have hpresent : ((a.shown routes).find? fun e => a.chosenKey e = some key).isSome = true :=
    List.find?_isSome.mpr ⟨e, hm, by simp [chosenKey, he, hkey]⟩
  obtain ⟨f, hfind⟩ := Option.isSome_iff_exists.mp hpresent
  have hkeyed : a.chosenKey f = some key := by simpa using List.find?_some hfind
  obtain ⟨first, hfirst, hnamed⟩ := Option.bind_eq_some_iff.mp hkeyed
  obtain ⟨schema, hschema⟩ := a.synthesizer.alone_isSome hnamed
  refine ⟨f.uri, f.verb, first, schema, a.firstWithKey_of_find? hfind hfirst, hschema, ?_⟩
  rw [assemble_eq]
  apply (a.get?_definitionsOf routes key).trans
  rw [hfind, Option.bind_some, hfirst, Option.bind_some, hschema]

def paging : Project :=
  { tree := .directory [("src", .directory [("lib.rs",
      .file (some
        "struct R{}fn all(){R::collection(U::all())}fn page(){R::collection(U::paginate())}"))])]
    directory := "" }

def pagingConfig : Config :=
  { fixtures := [("crate::U", {})]
    capabilities := { transformers := ["crate::R"], domainObjects := ["crate::U"] } }

def pagingFiles : List ParsedFile :=
  (ParsedFile.read paging.tree "src/lib.rs" "src").toOption.toList

def ofPaging : Assembler := paging.assembler pagingConfig pagingFiles

def pagingRoutes : List Route :=
  [{ uri := "all", methods := ["GET"], handler := some ⟨"crate", "all"⟩ },
    { uri := "page", methods := ["GET"], handler := some ⟨"crate", "page"⟩ }]

/-- The two operations that share a definition, and one whose source is missing. -/
def mixedRoutes : List Route :=
  pagingRoutes ++ [{ uri := "t", methods := ["GET"], handler := some ⟨"crate::T", "show"⟩ }]

def isPage (definition : Option Schema) : Bool :=
  ((definition.bind Schema.sample).bind fun sample => sample.get? "links").isSome

-- the shape, its own definition and the one that is shared come out of one evaluation
theorem evaluated_page : (((ofPaging.shapeAt pagingRoutes "/page" .get).any fun shape =>
    decide (shape.key? = some "crate::R::collection") &&
      isPage (ofPaging.synthesizer.alone shape) &&
      !isPage ((ofPaging.assemble pagingRoutes).1.definitions.get? "crate::R::collection")) &&
    ((ofPaging.assemble mixedRoutes.reverse).1.definitions.get? "crate::R::collection").any
      (fun definition => !isPage (some definition)) &&
    decide (ofPaging.reports mixedRoutes =
      [.sourceUnavailable "crate::T" "`T` is not defined in src/lib.rs"])) = true := by
  rw [ofPaging, Project.assembler, CapabilityIndex.build, Structs.ofFiles]
  refine Scope.of_flat pagingFiles ?_
  decide +kernel

theorem shapeAt_page : ∃ shape, ofPaging.shapeAt pagingRoutes "/page" .get = some shape ∧
    shape.key? = some "crate::R::collection" ∧ isPage (ofPaging.synthesizer.alone shape) = true ∧
    isPage ((ofPaging.assemble pagingRoutes).1.definitions.get? "crate::R::collection") =
      false := by
  have hpage := evaluated_page
  simp only [Bool.and_eq_true] at hpage
  obtain ⟨shape, hshape, h⟩ := (Option.any_eq_true _ _).mp hpage.1.1
  simp only [Bool.and_eq_true, decide_eq_true_eq, Bool.not_eq_true'] at h
  exact ⟨shape, hshape, h.1.1, h.1.2, h.2⟩

theorem definition_of_mixed : ∃ definition,
    (ofPaging.assemble mixedRoutes.reverse).1.definitions.get? "crate::R::collection" =
        some definition ∧ isPage (some definition) = false := by
  have hpage := evaluated_page
  simp only [Bool.and_eq_true] at hpage
  obtain ⟨definition, hdefinition, h⟩ := (Option.any_eq_true _ _).mp hpage.1.2
  exact ⟨definition, hdefinition, by simpa using h⟩

theorem reports_mixed : ofPaging.reports mixedRoutes =
    [.sourceUnavailable "crate::T" "`T` is not defined in src/lib.rs"] := by
  have hpage := evaluated_page
  simp only [Bool.and_eq_true] at hpage
  exact of_decide_eq_true hpage.2

theorem definition_of_page : ∃ shape, ofPaging.shapeAt pagingRoutes "/page" .get = some shape ∧
    shape.key? = some "crate::R::collection" ∧
    (ofPaging.assemble pagingRoutes).1.RefersTo "/page" .get "crate::R::collection" ∧
    ∃ uri verb first schema,
      ofPaging.FirstWithKey pagingRoutes "crate::R::collection" uri verb first ∧
        ofPaging.synthesizer.alone first = some schema ∧
        (ofPaging.assemble pagingRoutes).1.definitions.get? "crate::R::collection" =
          some schema := by
  obtain ⟨shape, hshape, hkey, -⟩ := shapeAt_page
  exact ⟨shape, hshape, hkey,
    ofPaging.definition_of_first pagingRoutes "/page" .get shape _ hshape hkey⟩

/-- An operation may have to do with a definition that is not its own: a page with that of a
collection which is no page. -/
theorem not_definition_alone : ¬ ∀ (project : Project) (config : Config) (files : List ParsedFile)
    (routes : List Route) (uri : String) (verb : Verb) (shape : Shape) (key : String),
    (project.assembler config files).shapeAt routes uri verb = some shape → shape.key? = some key →
      ((project.assembler config files).assemble routes).1.definitions.get? key =
        (project.assembler config files).synthesizer.alone shape := by
  intro h
  obtain ⟨shape, hshape, hkey, hpage, hshared⟩ := shapeAt_page
  have hpaging := h paging pagingConfig pagingFiles
  rw [← ofPaging] at hpaging
  have halone := hpaging pagingRoutes "/page" .get shape _ hshape hkey
  rw [halone, hpage] at hshared
  cases hshared

end Assembler

end ApiContract
