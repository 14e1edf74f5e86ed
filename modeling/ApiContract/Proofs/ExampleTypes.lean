import ApiContract.Proofs.DefinitionRuns
import ApiContract.Proofs.Envelopes
import ApiContract.Proofs.IndexedFunctions

namespace ApiContract

namespace Schema

theorem typeOf_object (members : Members) : typeOf (.object members) = "object" := by
  rw [typeOf]

theorem typeOf_array_ne (items : List Json) : typeOf (.array items) ≠ "object" := by
  rw [typeOf]
  decide

end Schema

namespace Transformers

/-- The bodies that are objects: pages, content in an envelope, and single items that the
transformer makes an object of or that are already described as one. -/
def ShowsObject (wrap : Option String) (s : Struct) (batch : Batch) : Prop :=
  batch.paginated = true ∨ wrap.isSome = true ∨
    batch.collection = false ∧
      (s.form = .named ∨ ∃ first rest, batch.items = first :: rest ∧ Schema.typeOf first = "object")

variable {s : Struct}

theorem typeOf_project_iff (structs : Structs) (model : Option String) (item : Json) :
    Schema.typeOf (project structs s model item) = "object" ↔
      s.form = .named ∨ Schema.typeOf item = "object" := by
  rw [project]
  split
  next hnamed => simp [hnamed, Schema.typeOf_object]
  next hform => simp [hform]

theorem typeOf_envelope_iff (wrap : Option String) (content : Json) :
    Schema.typeOf (envelope wrap content) = "object" ↔
      wrap.isSome = true ∨ Schema.typeOf content = "object" := by
  cases wrap with
  | none => simp [envelope]
  | some key => simp [envelope, Schema.typeOf_object]

theorem typeOf_render_iff (t : Transformers) {name : String} (hfind : t.structs.find? name = some s)
    {batch : Batch} {body : Json} (hbody : t.render name batch = .ok body) :
    Schema.typeOf body = "object" ↔ ShowsObject t.wrap s batch := by
  rw [ShowsObject]
  cases hpage : batch.paginated with
  | true =>
    rw [t.render_of_page hfind hpage] at hbody
    obtain rfl := Except.ok.inj hbody
    simp [page_eq, Schema.typeOf_object]
  | false =>
    cases hcollection : batch.collection with
    | true =>
      rw [t.render_of_collection hfind hpage hcollection] at hbody
      obtain rfl := Except.ok.inj hbody
      simp [typeOf_envelope_iff, Schema.typeOf_array_ne]
    | false =>
      cases hitems : batch.items with
      | nil => cases hbody.symm.trans (t.render_of_nothing hfind hpage hcollection hitems)
      | cons first rest =>
        rw [t.render_of_single hfind hpage hcollection hitems] at hbody
        obtain rfl := Except.ok.inj hbody
        simp [typeOf_envelope_iff, typeOf_project_iff]

end Transformers

namespace Synthesizer

variable {F : Type} [ExampleSource F] (s : Synthesizer F Transformers)

/-- A definition that a transformer gives declares an object. That is the type of its example
exactly if the body is shown as an object. -/
theorem type_of_definition {transformer : String} {collection paginated : Bool} {source : Shape}
    {schema : Schema} {ds : Definitions} (hnew : Schema.key transformer collection ∉ ds.table.keys)
    (hschema : s.transformerSchema transformer collection paginated source = .ok schema) :
    ∃ struct batch body definition, s.transformers.structs.find? transformer = some struct ∧
      s.batch? transformer collection paginated source = .ok batch ∧
      s.transformers.render transformer batch = .ok body ∧
      (s.build (some (.wrapped transformer collection paginated source)) ds).2.table.get?
          (Schema.key transformer collection) =
        some definition ∧
      definition.sample = some body ∧ definition.type = some "object" ∧
      (definition.type = some (Schema.typeOf body) ↔
        Transformers.ShowsObject s.transformers.wrap struct batch) := by
  have hstored : (s.build (some (.wrapped transformer collection paginated source)) ds).2.table.get?
      (Schema.key transformer collection) = some schema := by
    rw [build, hschema, define_ok hnew]
    exact Table.get?_insert_self _ _ _
  obtain ⟨batch, hbatch, hschema⟩ := Analyzer.exists_of_bind_ok hschema
  obtain ⟨body, hbody, hschema⟩ := Analyzer.exists_of_bind_ok hschema
  obtain rfl := Except.ok.inj hschema
  cases hfind : s.transformers.structs.find? transformer with
  | none =>
    have hfails := hbody
    simp [Renderer.render, Transformers.render, hfind] at hfails
  | some struct =>
    refine ⟨struct, batch, body, _, rfl, hbatch, hbody, hstored, rfl, rfl, ?_⟩
    rw [← s.transformers.typeOf_render_iff hfind hbody]
    simp [Schema.withExample, eq_comm]

def presenting (wrap : Option String) : Synthesizer where
  fixtures := { table := [], variant := "documentation" }
  transformers := { Transformers.showing with wrap }
  typeExamples := []
  transformerInputs := [("UserResource", Transformers.withSecrets)]
  stored := false

theorem exists_schema_presenting (wrap : Option String) (collection paginated : Bool) :
    ∃ schema, (presenting wrap).transformerSchema "UserResource" collection paginated .unresolved =
      .ok schema := by
  let batch : Batch :=
    ⟨List.replicate (itemCount collection) Transformers.withSecrets, none, collection, paginated⟩
  have hbatch :
      (presenting wrap).batch? "UserResource" collection paginated .unresolved = .ok batch := rfl
  have hfind : (presenting wrap).transformers.structs.find? "UserResource" =
      some Transformers.userResource := rfl
  have hitems : batch.items ≠ [] := by cases collection <;> nofun
  obtain ⟨body, hbody⟩ :=
    ((presenting wrap).transformers.exists_render_iff hfind).mpr (.inr (.inr hitems))
  refine ⟨.withExample "object" body, ?_⟩
  rw [transformerSchema, hbatch]
  exact congrArg (Except.map (Schema.withExample "object")) hbody

/-- A collection in an envelope is declared as what it is. -/
theorem type_of_wrapped_users : "UserResource::collection" ∉ Table.keys ([] : Table Schema) ∧
    (∃ schema, (presenting (some "data")).transformerSchema "UserResource" true false .unresolved =
      .ok schema) ∧
    ∃ definition body,
      ((presenting (some "data")).build (some (.wrapped "UserResource" true false .unresolved))
            {}).2.table.get? "UserResource::collection" =
          some definition ∧
        definition.sample = some body ∧ definition.type = some (Schema.typeOf body) := by
  have hnew : Schema.key "UserResource" true ∉ ({} : Definitions).table.keys := List.not_mem_nil
  obtain ⟨schema, hschema⟩ := exists_schema_presenting (some "data") true false
  obtain ⟨_, _, body, definition, -, -, -, hstored, hsample, -, htype⟩ :=
    (presenting (some "data")).type_of_definition hnew hschema
  exact ⟨hnew, ⟨schema, hschema⟩, definition, body, hstored, hsample, htype.mpr (.inr (.inl rfl))⟩

/-- A collection without an envelope is an array, and yet declared as an object. -/
theorem not_type_of_definition : ¬ ∀ (s : Synthesizer) (transformer : String)
    (collection paginated : Bool) (source : Shape) (schema : Schema) (ds : Definitions),
    Schema.key transformer collection ∉ ds.table.keys →
      s.transformerSchema transformer collection paginated source = .ok schema → ∃ definition body,
        (s.build (some (.wrapped transformer collection paginated source)) ds).2.table.get?
              (Schema.key transformer collection) =
            some definition ∧
          definition.sample = some body ∧ definition.type = some (Schema.typeOf body) := by
  intro h
  obtain ⟨schema, hschema⟩ := exists_schema_presenting none true false
  obtain ⟨definition, body, hstored, hsample, htype⟩ :=
    h (presenting none) "UserResource" true false .unresolved schema {} List.not_mem_nil hschema
  have harray : ∃ items, definition = .withExample "object" (.array items) := by
    have hbuilt : ((presenting none).build (some (.wrapped "UserResource" true false .unresolved))
          {}).2.table.get? "UserResource::collection" =
        some (.withExample "object" (.array _)) := rfl
    exact ⟨_, Option.some.inj (hstored.symm.trans hbuilt)⟩
  obtain ⟨items, rfl⟩ := harray
  obtain rfl := Option.some.inj hsample
  exact Schema.typeOf_array_ne items (Option.some.inj htype).symm

end Synthesizer

end ApiContract
