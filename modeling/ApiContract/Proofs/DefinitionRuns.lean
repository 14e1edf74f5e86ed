import ApiContract.Proofs.Definitions

namespace ApiContract.Synthesizer

variable {F R : Type} [ExampleSource F] [Renderer R] (s : Synthesizer F R)

def placeholder (transformer : String) : Schema := .withExample "object" (.string transformer)

/-- All that a call for a shape can do to the definitions before it. -/
inductive Step (ds : Definitions) : Option Shape → Definitions → Prop where
  | unnamed {shape : Option Shape} (hkey : shape.bind Shape.key? = none) : Step ds shape ds
  | known {shape : Option Shape} {key : String} (hkey : shape.bind Shape.key? = some key)
      (hknown : key ∈ ds.table.keys) : Step ds shape ds
  | type {type : String} {collection paginated : Bool}
      (hnew : Schema.key type collection ∉ ds.table.keys) :
      Step ds (some (.raw type collection paginated)) { ds with
          table := ds.table.insert (Schema.key type collection) (s.typeSchema type collection) }
  | shown {transformer : String} {collection paginated : Bool} {source : Shape} {schema : Schema}
    (hnew : Schema.key transformer collection ∉ ds.table.keys)
    (hschema : s.transformerSchema transformer collection paginated source = .ok schema) :
    Step ds (some (.wrapped transformer collection paginated source))
      { ds with table := ds.table.insert (Schema.key transformer collection) schema }
  | failed {transformer : String} {collection paginated : Bool} {source : Shape} {f : Failure}
    (hnew : Schema.key transformer collection ∉ ds.table.keys)
    (hschema : s.transformerSchema transformer collection paginated source = .error f) :
    Step ds (some (.wrapped transformer collection paginated source))
      { table := ds.table.insert (Schema.key transformer collection) (placeholder transformer)
        failures := ds.failures ++ [f] }

theorem contains_eq_false {table : Table Schema} {key : String} (h : key ∉ table.keys) :
    table.contains key = false := by
  apply eq_false_of_ne_true
  intro hc
  exact h ((Table.mem_keys table key).mpr ((Table.contains_iff table key).mp hc))

theorem define_of_known {ds : Definitions} {key : String} (h : key ∈ ds.table.keys) (name : String)
    (schema : Except Failure Schema) : define key name schema ds = ds :=
  if_pos ((Table.contains_iff ds.table key).mpr ((Table.mem_keys ds.table key).mp h))

theorem define_ok {ds : Definitions} {key : String} (h : key ∉ ds.table.keys) (name : String)
    (schema : Schema) :
    define key name (.ok schema) ds = { ds with table := ds.table.insert key schema } := by
  simp [define, contains_eq_false h]

theorem define_error {ds : Definitions} {key : String} (h : key ∉ ds.table.keys) (name : String)
    (f : Failure) : define key name (.error f) ds =
    { table := ds.table.insert key (placeholder name), failures := ds.failures ++ [f] } := by
  simp [define, contains_eq_false h, placeholder]

theorem step_build (shape : Option Shape) (ds : Definitions) :
    s.Step ds shape (s.build shape ds).2 := by
  cases shape with
  | none => exact .unnamed rfl
  | some shape =>
    cases shape with
    | unresolved | literal => exact .unnamed rfl
    | raw type collection paginated =>
      by_cases hknown : Schema.key type collection ∈ ds.table.keys
      · rw [build, define_of_known hknown]
        exact .known rfl hknown
      · rw [build, define_ok hknown]
        exact .type hknown
    | wrapped transformer collection paginated source =>
      by_cases hknown : Schema.key transformer collection ∈ ds.table.keys
      · rw [build, define_of_known hknown]
        exact .known rfl hknown
      · cases hschema : s.transformerSchema transformer collection paginated source with
        | ok schema =>
          rw [build, hschema, define_ok hknown]
          exact .shown hknown hschema
        | error f =>
          rw [build, hschema, define_error hknown]
          exact .failed hknown hschema

/-- A call whose shape is to be shown by a transformer, under a new key, but cannot be. -/
def Fails (ds : Definitions) (shape : Option Shape) (transformer key : String) (f : Failure) :
    Prop :=
  ∃ collection paginated source, shape = some (.wrapped transformer collection paginated source) ∧
    key = Schema.key transformer collection ∧ key ∉ ds.table.keys ∧
      s.transformerSchema transformer collection paginated source = .error f

section

variable {s}
variable {ds ds' : Definitions} {shape : Option Shape}

theorem Step.of_fails (h : s.Step ds shape ds') {transformer key : String} {f : Failure}
    (hf : s.Fails ds shape transformer key f) :
    ds'.failures = ds.failures ++ [f] ∧ ds'.table.get? key = some (placeholder transformer) := by
  obtain ⟨collection, paginated, source, rfl, rfl, hnew, hschema⟩ := hf
  cases h with
  | unnamed hkey => cases hkey
  | known hkey hknown =>
    obtain rfl := Option.some.inj hkey
    exact absurd hknown hnew
  | shown _ hshown => cases hschema.symm.trans hshown
  | failed _ hfailed =>
    cases hschema.symm.trans hfailed
    exact ⟨rfl, Table.get?_insert_self _ _ _⟩

theorem Step.of_not_fails (h : s.Step ds shape ds')
    (hf : ∀ transformer key f, ¬ s.Fails ds shape transformer key f) :
    ds'.failures = ds.failures := by
  cases h with
  | failed hnew hschema => exact absurd ⟨_, _, _, rfl, rfl, hnew, hschema⟩ (hf _ _ _)
  | unnamed | known | type | shown => rfl

theorem Step.of_unnamed (h : s.Step ds shape ds') (hkey : shape.bind Shape.key? = none) :
    ds' = ds := by
  cases h with
  | unnamed | known => rfl
  | type | shown | failed => cases hkey

theorem Step.mem_failures (h : s.Step ds shape ds') {f : Failure} (hf : f ∈ ds'.failures) :
    f ∈ ds.failures ∨ ∃ transformer collection paginated source,
      s.transformerSchema transformer collection paginated source = .error f := by
  cases h with
  | failed hnew hschema =>
    obtain hf | hf := List.mem_append.mp hf
    · exact .inl hf
    · obtain rfl := List.mem_singleton.mp hf
      exact .inr ⟨_, _, _, _, hschema⟩
  | unnamed | known | type | shown => exact .inl hf

end

theorem buildAll_concat (before : List (Option Shape)) (shape : Option Shape) (ds : Definitions) :
    s.buildAll (before ++ [shape]) ds = (s.build shape (s.buildAll before ds)).2 :=
  s.buildAll_append before [shape] ds

theorem get?_buildAll_of_get? {ds : Definitions} {key : String} {schema : Schema}
    (h : ds.table.get? key = some schema) (shapes : List (Option Shape)) :
    (s.buildAll shapes ds).table.get? key = some schema := by
  rw [get?_buildAll, h, Option.some_or]

/-- What one call has to do that comes after others: `ds` and `ds'` are the definitions before it
and after it, and `answer` is the schema that it gives. -/
structure Call (before : List (Option Shape)) (shape : Option Shape) (ds ds' : Definitions)
    (answer : Schema) : Prop where
  /-- There are definitions for the named shapes so far, and for nothing else. -/
  keys :
      ∀ key, key ∈ ds'.table.keys ↔ ∃ named, some named ∈ before ++ [shape] ∧ named.key? = some key
  /-- A definition stays as it is, now and in all that follows. -/
  stays : ∀ key schema, ds'.table.get? key = some schema →
    ∀ later, (s.buildAll later ds').table.get? key = some schema
  kept : ∀ key schema, ds.table.get? key = some schema → ds'.table.get? key = some schema
  refers :
      ∀ key, shape.bind Shape.key? = some key → answer = .toDefinition key ∧ key ∈ ds'.table.keys
  unnamed : shape.bind Shape.key? = none → ds' = ds
  fails : ∀ transformer key f, s.Fails ds shape transformer key f →
    ds'.failures = ds.failures ++ [f] ∧ ds'.table.get? key = some (placeholder transformer)
  succeeds :
      (∀ transformer key f, ¬ s.Fails ds shape transformer key f) → ds'.failures = ds.failures

/-- Every call of a run that starts without definitions does so. -/
theorem call_after (before : List (Option Shape)) (shape : Option Shape) :
    s.Call before shape (s.buildAll before {}) (s.build shape (s.buildAll before {})).2
      (s.build shape (s.buildAll before {})).1 := by
  have hstep := s.step_build shape (s.buildAll before {})
  have hkeys := s.mem_keys_buildAll (before ++ [shape])
  rw [buildAll_concat] at hkeys
  refine ⟨hkeys, ?_, ?_, ?_, hstep.of_unnamed, fun _ _ _ => hstep.of_fails, hstep.of_not_fails⟩
  · exact fun key schema hget later => s.get?_buildAll_of_get? hget later
  · exact fun key schema hget => s.get?_buildAll_of_get? hget [shape]
  · intro key hkey
    obtain ⟨named, rfl, hnamed⟩ := Option.bind_eq_some_iff.mp hkey
    refine ⟨s.build_of_key _ hnamed, (hkeys key).mpr ⟨named, ?_, hnamed⟩⟩
    exact List.mem_append_right _ (List.mem_singleton.mpr rfl)

end ApiContract.Synthesizer
