import ApiContract.Proofs.DefinitionRuns
import ApiContract.Proofs.EvaluatedValues
import ApiContract.Proofs.WrittenSchemas

namespace ApiContract

theorem Name.mem_of_lookup? {α : Type} {entries : List (String × α)} {name : String} {value : α}
    (h : lookup? entries name = some value) : ∃ key, (key, value) ∈ entries := by
  unfold lookup? at h
  split at h
  next found hfound =>
    obtain rfl := Option.some.inj h
    exact ⟨name, Table.mem_of_get? hfound⟩
  next =>
    split at h
    next key found hfilter =>
      obtain rfl := Option.some.inj h
      exact ⟨key, List.mem_of_mem_filter (hfilter ▸ List.mem_singleton.mpr rfl)⟩
    next => cases h

namespace Members

def Settled (members : Members) : Prop := (Json.object members).Settled

theorem settled_iff (members : Members) :
    members.Settled ↔ members.names.Nodup ∧ ∀ entry ∈ members, entry.2.Settled :=
  Json.settled_object members

theorem settled_nil : Settled [] := rfl

theorem Settled.insert {members : Members} (h : members.Settled) (name : String) {value : Json}
    (hvalue : value.Settled) : Settled (members.insert name value) := by
  obtain ⟨hnames, hvalues⟩ := (settled_iff members).mp h
  refine (settled_iff _).mpr ⟨nodup_insert hnames name value, fun entry hentry => ?_⟩
  obtain rfl | hentry := mem_insert hentry
  · exact hvalue
  · exact hvalues entry hentry

theorem Settled.extend {members more : Members} (h : members.Settled)
    (hmore : ∀ entry ∈ more, entry.2.Settled) : Settled (members.extend more) := by
  obtain ⟨hnames, hvalues⟩ := (settled_iff members).mp h
  refine (settled_iff _).mpr ⟨nodup_extend hnames more, fun entry hentry => ?_⟩
  obtain hentry | hentry := mem_extend hentry
  · exact hmore entry hentry
  · exact hvalues entry hentry

theorem Settled.cons {members : Members} (h : members.Settled) {name : String}
    (hname : name ∉ members.names) {value : Json} (hvalue : value.Settled) :
    Settled ((name, value) :: members) := by
  obtain ⟨hnames, hvalues⟩ := (settled_iff members).mp h
  refine (settled_iff _).mpr ⟨List.nodup_cons.mpr ⟨hname, hnames⟩, fun entry hentry => ?_⟩
  obtain rfl | hentry := List.mem_cons.mp hentry
  · exact hvalue
  · exact hvalues entry hentry

theorem Settled.values {members : Members} (h : members.Settled) :
    ∀ entry ∈ members, entry.2.Settled :=
  ((settled_iff members).mp h).2

end Members

theorem Json.settled_of_get? {item : Json} (h : item.Settled) {name : String} {value : Json}
    (hget : item.get? name = some value) : value.Settled := by
  cases item with
  | object members => exact ((settled_object members).mp h).2 _ (Table.mem_of_get? hget)
  | null | bool | number | string | array => cases hget

namespace Structs

variable (structs : Structs)

theorem settled_sampleOf {inner : Option (FieldType → Json)}
    (h : ∀ f, inner = some f → ∀ type, (f type).Settled) (type : FieldType) :
    (structs.sampleOf inner type).Settled := by
  unfold sampleOf
  split
  · unfold Primitive.sample
    split
    · rfl
    split
    · rfl
    split <;> rfl
  split
  next f _ =>
    refine Json.settled_ofList fun entry hentry => ?_
    obtain ⟨field, -, rfl⟩ := List.mem_map.mp hentry
    exact h f rfl field.type
  next => rfl

theorem settled_singleton {item : Json} (h : item.Settled) : (Json.array [item]).Settled :=
  (Json.settled_array _).mpr fun _ hm => List.mem_singleton.mp hm ▸ h

theorem settled_sampleWithin (depth : Nat) (type : FieldType) :
    (structs.sampleWithin depth type).Settled := by
  induction depth generalizing type with
  | zero =>
    have hitem : (structs.sampleOf none type).Settled :=
      structs.settled_sampleOf (fun f h => by cases h) type
    unfold sampleWithin
    dsimp only
    split
    · exact settled_singleton hitem
    · exact hitem
  | succ depth ih =>
    unfold sampleWithin
    split
    · exact settled_singleton (ih _)
    · refine structs.settled_sampleOf (fun f h => ?_) type
      obtain rfl := Option.some.inj h
      exact ih

end Structs

namespace Fixtures

theorem settled_ensure {attributes : Members} (h : attributes.Settled) (name : String)
    {value : Json} (hvalue : value.Settled) : (ensure attributes name value).Settled := by
  unfold ensure
  split
  · exact h
  · exact h.insert name hvalue

theorem settled_store (place : Nat) {attributes : Members} (h : attributes.Settled) :
    (store place attributes).Settled := by
  have hkeyed : Members.Settled
      (if attributes.contains "id" then attributes else ("id", Json.nat (place + 1)) ::
        attributes) := by
    split
    next => exact h
    next hid =>
      refine h.cons (fun hmem => hid ?_) rfl
      exact (Table.contains_iff attributes "id").mpr ((Table.mem_keys attributes "id").mp hmem)
  have hmoment : storedAt.Settled := rfl
  exact settled_ensure (settled_ensure hkeyed "created_at" hmoment) "updated_at" hmoment

def Settled (fixtures : Fixtures) : Prop :=
  ∀ entry ∈ fixtures.table,
    entry.2.attributes.Settled ∧ ∀ variant ∈ entry.2.variants, Members.Settled variant.2

theorem Settled.instances {fixtures : Fixtures} (h : fixtures.Settled) {stored : Bool}
    {type : String} {count : Nat} {items : List Json}
    (hitems : fixtures.instances stored type count = .ok items) : ∀ item ∈ items, item.Settled := by
  unfold Fixtures.instances at hitems
  split at hitems
  next fixture hfixture =>
    cases hitems
    intro item hitem
    obtain ⟨place, -, rfl⟩ := List.mem_map.mp hitem
    obtain ⟨key, hm⟩ := Name.mem_of_lookup? hfixture
    obtain ⟨hattributes, hvariants⟩ := h _ hm
    have hlaid : Members.Settled
        (fixture.attributes.extend ((fixture.variants.get? fixtures.variant).getD [])) := by
      refine hattributes.extend fun entry hentry => ?_
      cases hvariant : fixture.variants.get? fixtures.variant with
      | none =>
        rw [hvariant] at hentry
        cases hentry
      | some variant =>
        rw [hvariant] at hentry
        exact (hvariants _ (Table.mem_of_get? hvariant)).values entry hentry
    unfold instanceAt
    dsimp only
    split
    · exact settled_store place hlaid
    · exact hlaid
  next => cases hitems

end Fixtures

namespace Transformers

theorem settled_put {result : Members} (h : result.Settled) (field : Field) {value : Json}
    (hvalue : value.Settled) : (put result field value).Settled := by
  unfold put
  split
  next => exact h.extend (Members.Settled.values hvalue)
  next => exact h.insert field.written hvalue

theorem settled_fieldValue (structs : Structs) (model : Option String) {item : Json}
    (h : item.Settled) (field : Field) : (fieldValue structs model item field).Settled := by
  unfold fieldValue
  split
  · exact h
  cases hget : (item.get? field.name).or (item.get? field.written) with
  | none => exact structs.settled_sampleWithin Structs.depthLimit field.type
  | some value =>
    obtain hname | ⟨-, hwritten⟩ := Option.or_eq_some_iff.mp hget
    · exact Json.settled_of_get? h hname
    · exact Json.settled_of_get? h hwritten

theorem settled_project (structs : Structs) (transformer : Struct) (model : Option String)
    {item : Json} (h : item.Settled) : (project structs transformer model item).Settled := by
  have hfold :
      ∀ (fields : List Field) (result : Members), result.Settled → Members.Settled (fields.foldl
          (fun result field => put result field (fieldValue structs model item field)) result) := by
    intro fields
    induction fields with
    | nil => exact fun result hresult => hresult
    | cons field rest ih =>
      exact fun result hresult =>
        ih _ (settled_put hresult field (settled_fieldValue structs model h field))
  unfold project
  split
  · exact hfold _ [] Members.settled_nil
  · exact h

theorem settled_page {items : List Json} (h : ∀ item ∈ items, item.Settled) (key : String) :
    (page items key).Settled := by
  have hposition : ∀ n, (if items.isEmpty then Json.null else .nat n).Settled := by
    intro n
    split <;> rfl
  refine Json.settled_ofList fun entry hentry => ?_
  simp only [List.mem_cons, List.not_mem_nil, or_false] at hentry
  obtain rfl | rfl | rfl := hentry
  · exact (Json.settled_array items).mpr h
  · rfl
  · refine (Json.settled_object _).mpr ⟨by simp [Members.names], fun entry hentry => ?_⟩
    simp only [List.mem_cons, List.not_mem_nil, or_false] at hentry
    obtain rfl | rfl | rfl | rfl | rfl | rfl | rfl := hentry
    all_goals first | exact hposition _ | rfl

theorem settled_envelope (wrap : Option String) {body : Json} (h : body.Settled) :
    (envelope wrap body).Settled := by
  cases wrap with
  | none => exact h
  | some key => exact Members.settled_nil.cons List.not_mem_nil h

theorem settled_render (t : Transformers) {name : String} {batch : Batch}
    (h : ∀ item ∈ batch.items, item.Settled) {body : Json}
    (hbody : t.render name batch = .ok body) : body.Settled := by
  unfold render at hbody
  split at hbody
  · cases hbody
  next transformer _ =>
    have hitems :
        ∀ item ∈ batch.items.map (project t.structs transformer batch.model), item.Settled := by
      intro item hitem
      obtain ⟨source, hsource, rfl⟩ := List.mem_map.mp hitem
      exact settled_project t.structs transformer batch.model (h source hsource)
    dsimp only at hbody
    split at hbody
    · cases hbody
      exact settled_page hitems _
    split at hbody
    · cases hbody
      exact settled_envelope t.wrap ((Json.settled_array _).mpr hitems)
    split at hbody
    next item rest hcons =>
      cases hbody
      exact settled_envelope t.wrap (hitems item (hcons ▸ List.mem_cons_self))
    next => cases hbody

end Transformers

namespace Synthesizer

/-- What schemas take their samples from. -/
structure Settled (s : Synthesizer) : Prop where
  fixtures : s.fixtures.Settled
  typeExamples : ∀ entry ∈ s.typeExamples, entry.2.Settled
  transformerInputs : ∀ entry ∈ s.transformerInputs, entry.2.Settled

variable {s : Synthesizer} (h : s.Settled)
include h

theorem Settled.orderly_typeSchema (type : String) (collection : Bool) :
    (s.typeSchema type collection).Orderly Json.Settled := by
  have hsample : ((Name.lookup? s.typeExamples type).getD (.string type)).Settled := by
    cases hlookup : Name.lookup? s.typeExamples type with
    | none => rfl
    | some value =>
      obtain ⟨key, hm⟩ := Name.mem_of_lookup? hlookup
      exact h.typeExamples _ hm
  unfold typeSchema
  dsimp only
  split
  · refine Schema.orderly_withExample ((Json.settled_array _).mpr fun item hitem => ?_) "array"
    obtain rfl : item = _ := by simpa using hitem
    exact hsample
  · exact Schema.orderly_withExample hsample "object"

theorem Settled.input {transformer : String} {source : Shape} (hsource : source.All Json.Settled)
    {value : Json} (hinput : s.input? transformer source = some (.value value)) :
    value.Settled := by
  unfold input? at hinput
  split at hinput
  · cases hinput
  next found _ hlookup =>
    cases hinput
    obtain ⟨key, hm⟩ := Name.mem_of_lookup? hlookup
    exact h.transformerInputs _ hm
  next =>
    split at hinput
    · cases hinput
    · unfold sourceInput? at hinput
      split at hinput
      · cases hinput
      · cases hinput
        exact hsource
      · cases hinput

theorem Settled.batch {transformer : String} {collection paginated : Bool} {source : Shape}
    {batch : Batch} (hsource : source.All Json.Settled)
    (hbatch : s.batch? transformer collection paginated source = .ok batch) :
    ∀ item ∈ batch.items, item.Settled := by
  unfold batch? at hbatch
  split at hbatch
  next model _ =>
    cases hitems : ExampleSource.instances s.fixtures s.stored model (itemCount collection) with
    | error f =>
      rw [hitems] at hbatch
      cases hbatch
    | ok items =>
      rw [hitems] at hbatch
      cases hbatch
      exact h.fixtures.instances hitems
  next value hvalue =>
    cases hbatch
    intro item hitem
    obtain rfl := List.eq_of_mem_replicate hitem
    exact h.input hsource hvalue
  next => cases hbatch

theorem Settled.orderly_transformerSchema {transformer : String} {collection paginated : Bool}
    {source : Shape} (hsource : source.All Json.Settled) {schema : Schema}
    (hschema : s.transformerSchema transformer collection paginated source = .ok schema) :
    schema.Orderly Json.Settled := by
  obtain ⟨batch, hbatch, hschema⟩ := Analyzer.exists_of_bind_ok hschema
  obtain ⟨body, hbody, hschema⟩ := Analyzer.exists_of_bind_ok hschema
  cases hschema
  exact Schema.orderly_withExample
    (Transformers.settled_render s.transformers (h.batch hsource hbatch) hbody) "object"

omit h in
theorem orderly_build {shape : Option Shape}
    (hshape : ∀ found, shape = some found → found.All Json.Settled) (ds : Definitions) :
    (s.build shape ds).1.Orderly Json.Settled := by
  have hempty : Schema.emptyObject.Orderly Json.Settled :=
    Schema.orderly_withExample (show Json.Settled (.object []) from rfl) "object"
  cases shape with
  | none => exact hempty
  | some found =>
    cases found with
    | unresolved => exact hempty
    | literal value => exact Schema.orderly_withExample (hshape _ rfl) _
    | raw | wrapped => exact Schema.orderly_toDefinition _ _

theorem Settled.orderly_step {ds after : Definitions} {shape : Option Shape}
    (hstep : s.Step ds shape after) (hshape : ∀ found, shape = some found → found.All Json.Settled)
    (hds : ∀ entry ∈ ds.table, entry.2.Orderly Json.Settled) :
    ∀ entry ∈ after.table, entry.2.Orderly Json.Settled := by
  have hinsert : ∀ key schema, schema.Orderly Json.Settled →
      ∀ entry ∈ ds.table.insert key schema, entry.2.Orderly Json.Settled := by
    intro key schema hschema entry hm
    obtain rfl | hm := Table.mem_insert hm
    · exact hschema
    · exact hds entry hm
  cases hstep with
  | unnamed | known => exact hds
  | type => exact hinsert _ _ (h.orderly_typeSchema _ _)
  | @shown _ _ _ source _ _ hschema =>
    have hsource : source.All Json.Settled := hshape (.wrapped _ _ _ source) rfl
    exact hinsert _ _ (h.orderly_transformerSchema hsource hschema)
  | @failed transformer =>
    exact hinsert _ _
      (Schema.orderly_withExample (show Json.Settled (.string transformer) from rfl) "object")

/-- All definitions that are built are orderly. -/
theorem Settled.orderly_buildAll {shapes : List (Option Shape)}
    (hshapes : ∀ shape, some shape ∈ shapes → shape.All Json.Settled) {ds : Definitions}
    (hds : ∀ entry ∈ ds.table, entry.2.Orderly Json.Settled) :
    ∀ entry ∈ (s.buildAll shapes ds).table, entry.2.Orderly Json.Settled := by
  induction shapes generalizing ds with
  | nil => exact hds
  | cons shape rest ih =>
    refine ih (fun other hother => hshapes other (List.mem_cons_of_mem _ hother)) ?_
    refine h.orderly_step (s.step_build shape ds) (fun found hfound => hshapes found ?_) hds
    exact hfound ▸ List.mem_cons_self

end Synthesizer

end ApiContract
