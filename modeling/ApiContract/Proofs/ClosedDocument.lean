import ApiContract.Proofs.Assembled

namespace ApiContract

namespace Document

/-- No reference leads nowhere, no definition or tag is without an operation, and no tag of an
operation is missing. -/
structure Closed (d : Document) : Prop where
  resolves : ∀ uri verb operation, d.operation? uri verb = some operation →
      ∀ status response, (status, response) ∈ operation.responses →
        ∀ reference ∈ response.schema.references, ∃ key ∈ d.definitions.keys,
          reference = Schema.pointer key ∧ Schema.keyOf? reference = some key
  used : ∀ key ∈ d.definitions.keys, ∃ uri verb operation status response,
    d.operation? uri verb = some operation ∧ (status, response) ∈ operation.responses ∧
      Schema.pointer key ∈ response.schema.references
  tags_sorted : d.tags.Pairwise (· < ·)
  mem_tags : ∀ tag, tag ∈ d.tags ↔
    ∃ uri verb operation, d.operation? uri verb = some operation ∧ tag ∈ operation.tags

end Document

namespace Assembler

variable (a : Assembler)

theorem references_operationOf (e : Endpoint) {status : String} {response : Document.Response}
    (h : (status, response) ∈ (a.operationOf e).responses) :
    response.schema.references = (a.chosenKey e).toList.map Schema.pointer := by
  obtain ⟨only, shown, hresponses, hschema⟩ := a.responses_operationOf e
  rw [hresponses] at h
  obtain ⟨-, rfl⟩ := Prod.mk.inj (List.mem_singleton.mp h)
  rw [hschema, Synthesizer.references_build, chosenKey]

theorem mem_keys_definitions (routes : List Route) (key : String) :
    key ∈ (a.assemble routes).1.definitions.keys ↔
      ∃ e ∈ a.shown routes, a.chosenKey e = some key := by
  rw [assemble_eq, definitionsOf, Synthesizer.mem_keys_buildAll]
  constructor
  · rintro ⟨shape, hm, hkey⟩
    obtain ⟨e, he, hshape⟩ := List.mem_map.mp hm
    exact ⟨e, he, by rw [chosenKey, hshape, Option.bind_some, hkey]⟩
  · rintro ⟨e, he, hkey⟩
    obtain ⟨shape, hshape, hkey⟩ := Option.bind_eq_some_iff.mp hkey
    exact ⟨shape, List.mem_map.mpr ⟨e, he, hshape⟩, hkey⟩

theorem reference_resolves (routes : List Route) {e : Endpoint} (he : e ∈ a.shown routes)
    {status : String} {response : Document.Response}
    (hresponse : (status, response) ∈ (a.operationOf e).responses) {reference : String}
    (h : reference ∈ response.schema.references) :
    ∃ key ∈ (a.assemble routes).1.definitions.keys,
      reference = Schema.pointer key ∧ Schema.keyOf? reference = some key := by
  rw [a.references_operationOf e hresponse] at h
  obtain ⟨key, hkey, rfl⟩ := List.mem_map.mp h
  refine ⟨key, (a.mem_keys_definitions routes key).mpr ⟨e, he, ?_⟩, rfl, Schema.keyOf?_pointer key⟩
  exact Option.mem_toList.mp hkey

theorem definition_used (routes : List Route) {key : String}
    (h : key ∈ (a.assemble routes).1.definitions.keys) :
    ∃ e ∈ a.shown routes, ∃ status response, (status, response) ∈ (a.operationOf e).responses ∧
      Schema.pointer key ∈ response.schema.references := by
  obtain ⟨e, he, hkey⟩ := (a.mem_keys_definitions routes key).mp h
  obtain ⟨status, response, hresponses, -⟩ := a.responses_operationOf e
  have hresponse : (status, response) ∈ (a.operationOf e).responses := by simp [hresponses]
  refine ⟨e, he, status, response, hresponse, ?_⟩
  rw [a.references_operationOf e hresponse, hkey]
  exact List.mem_singleton.mpr rfl

theorem tags_assemble (routes : List Route) :
    (a.assemble routes).1.tags = NameSet.ofList ((a.shown routes).flatMap Endpoint.tags) := by
  rw [assemble_eq]
  simp only [tags, shown, inOrder, List.flatMap_assoc, List.flatMap_map]

/-- Whatever the routes, their document is closed. -/
theorem assemble_closed (routes : List Route) : (a.assemble routes).1.Closed where
  resolves := by
    intro uri verb operation hoperation status response hresponse reference href
    obtain ⟨e, he, -, -, rfl⟩ := (a.operation?_eq_some routes uri verb operation).mp hoperation
    exact a.reference_resolves routes he hresponse href
  used := by
    intro key hkey
    obtain ⟨e, he, status, response, hresponse, href⟩ := a.definition_used routes hkey
    have hoperation := (a.operation?_eq_some routes e.uri e.verb _).mpr ⟨e, he, rfl, rfl, rfl⟩
    exact ⟨e.uri, e.verb, a.operationOf e, status, response, hoperation, hresponse, href⟩
  tags_sorted := by
    rw [tags_assemble]
    exact NameSet.pairwise_ofList _
  mem_tags := by
    intro tag
    rw [tags_assemble, NameSet.mem_ofList, List.mem_flatMap]
    constructor
    · rintro ⟨e, he, htag⟩
      exact ⟨e.uri, e.verb, _, (a.operation?_eq_some routes _ _ _).mpr ⟨e, he, rfl, rfl, rfl⟩, htag⟩
    · rintro ⟨uri, verb, operation, hoperation, htag⟩
      obtain ⟨e, he, -, -, rfl⟩ := (a.operation?_eq_some routes uri verb operation).mp hoperation
      exact ⟨e, he, htag⟩

end Assembler

end ApiContract
