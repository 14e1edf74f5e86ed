import ApiContract.Proofs.Pointer
import ApiContract.Proofs.Table
import ApiContract.Schema.Synthesis

namespace ApiContract

def Shape.key? : Shape → Option String
  | .raw type collection _ => some (Schema.key type collection)
  | .wrapped transformer collection _ _ => some (Schema.key transformer collection)
  | .literal _ => none
  | .unresolved => none

namespace Synthesizer

variable {F R : Type} [ExampleSource F] [Renderer R] (s : Synthesizer F R)

/-- The definition that a shape gets if nothing has been built before it. -/
def alone (shape : Shape) : Option Schema :=
  shape.key?.bind fun key => (s.build (some shape) {}).2.table.get? key

def buildAll (shapes : List (Option Shape)) (ds : Definitions) : Definitions :=
  shapes.foldl (fun ds shape => (s.build shape ds).2) ds

theorem buildAll_append (shapes more : List (Option Shape)) (ds : Definitions) :
    s.buildAll (shapes ++ more) ds = s.buildAll more (s.buildAll shapes ds) :=
  List.foldl_append

/-- What a schema says does not depend on the definitions made before it. -/
theorem build_fst (shape : Option Shape) (ds : Definitions) :
    (s.build shape ds).1 = (s.build shape {}).1 := by
  cases shape with
  | none => rfl
  | some shape => cases shape <;> rfl

theorem build_of_key {shape : Shape} {key : String} (ds : Definitions) (h : shape.key? = some key) :
    (s.build (some shape) ds).1 = Schema.toDefinition key := by
  cases shape with
  | literal | unresolved => cases h
  | raw | wrapped =>
    cases h
    rfl

theorem references_build (shape : Option Shape) (ds : Definitions) :
    (s.build shape ds).1.references = (shape.bind Shape.key?).toList.map Schema.pointer := by
  cases shape with
  | none => rfl
  | some shape => cases shape <;> rfl

theorem get?_define (key placeholder other : String) (schema : Except Failure Schema)
    (ds : Definitions) : (define key placeholder schema ds).table.get? other =
    (ds.table.get? other).or ((define key placeholder schema {}).table.get? other) := by
  have hnil : Table.contains ([] : Table Schema) key = false := rfl
  by_cases hc : ds.table.contains key = true
  · obtain ⟨known, hk⟩ := (Table.contains_iff _ _).mp hc
    cases schema <;> by_cases ho : other = key <;>
      simp [define, hc, hnil, Table.get?_insert, ho, hk]
  · have hn : ds.table.get? key = none := by simpa [Table.contains] using hc
    cases schema <;> by_cases ho : other = key <;>
      simp [define, hc, hnil, Table.get?_insert, ho, hn]

theorem get?_define_nil (key placeholder other : String) (schema : Except Failure Schema) :
    (define key placeholder schema {}).table.get? other =
      if other = key then (define key placeholder schema {}).table.get? key else none := by
  have hnil : Table.contains ([] : Table Schema) key = false := rfl
  cases schema <;> by_cases ho : other = key <;> simp [define, hnil, Table.get?_insert, ho]

theorem get?_build (shape : Option Shape) (ds : Definitions) (key : String) :
    (s.build shape ds).2.table.get? key = (ds.table.get? key).or
        (if shape.bind Shape.key? = some key then shape.bind s.alone else none) := by
  cases shape with
  | none => simp [build]
  | some shape =>
    cases shape with
    | literal | unresolved => simp [build, Shape.key?]
    | raw type collection paginated =>
      simp only [build, Option.bind_some, Shape.key?, alone, Option.some.injEq]
      rw [get?_define, get?_define_nil]
      by_cases h : Schema.key type collection = key
      · rw [if_pos h, if_pos h.symm]
      · rw [if_neg h, if_neg fun he => h he.symm]
    | wrapped transformer collection paginated source =>
      simp only [build, Option.bind_some, Shape.key?, alone, Option.some.injEq]
      rw [get?_define, get?_define_nil]
      by_cases h : Schema.key transformer collection = key
      · rw [if_pos h, if_pos h.symm]
      · rw [if_neg h, if_neg fun he => h he.symm]

theorem alone_isSome {shape : Shape} {key : String} (h : shape.key? = some key) :
    ∃ schema, s.alone shape = some schema := by
  cases shape with
  | literal | unresolved => cases h
  | raw type collection paginated =>
    cases h
    refine ⟨s.typeSchema type collection, ?_⟩
    simp [alone, Shape.key?, build, define, Table.contains, Table.get?_insert]
  | wrapped transformer collection paginated source =>
    cases h
    cases hs : s.transformerSchema transformer collection paginated source with
    | ok schema =>
      exact ⟨schema,
        by simp [alone, Shape.key?, build, define, hs, Table.contains, Table.get?_insert]⟩
    | error f =>
      exact ⟨.withExample "object" (.string transformer),
        by simp [alone, Shape.key?, build, define, hs, Table.contains, Table.get?_insert]⟩

theorem get?_buildAll (shapes : List (Option Shape)) (ds : Definitions) (key : String) :
    (s.buildAll shapes ds).table.get? key = (ds.table.get? key).or ((shapes.find? fun shape =>
        shape.bind Shape.key? = some key).bind fun shape => shape.bind s.alone) := by
  induction shapes generalizing ds with
  | nil => simp [buildAll]
  | cons shape rest ih =>
    have hstep : s.buildAll (shape :: rest) ds = s.buildAll rest (s.build shape ds).2 := rfl
    rw [hstep, ih, get?_build, Option.or_assoc]
    by_cases h : shape.bind Shape.key? = some key
    · obtain ⟨named, rfl, hkey⟩ := Option.bind_eq_some_iff.mp h
      obtain ⟨schema, ha⟩ := s.alone_isSome hkey
      simp [hkey, ha]
    · simp [h]

theorem sorted_build (shape : Option Shape) {ds : Definitions} (h : ds.table.Sorted) :
    (s.build shape ds).2.table.Sorted := by
  have hdefine : ∀ key placeholder schema, (define key placeholder schema ds).table.Sorted := by
    intro key placeholder schema
    simp only [define]
    split
    · exact h
    · cases schema <;> exact h.insert _ _
  cases shape with
  | none => exact h
  | some shape =>
    cases shape with
    | literal | unresolved => exact h
    | raw | wrapped => exact hdefine _ _ _

theorem sorted_buildAll (shapes : List (Option Shape)) {ds : Definitions} (h : ds.table.Sorted) :
    (s.buildAll shapes ds).table.Sorted := by
  induction shapes generalizing ds with
  | nil => exact h
  | cons shape rest ih => exact ih (s.sorted_build shape h)

/-- Exactly the keys of the built shapes have definitions. -/
theorem mem_keys_buildAll (shapes : List (Option Shape)) (key : String) :
    key ∈ (s.buildAll shapes {}).table.keys ↔
      ∃ shape, some shape ∈ shapes ∧ shape.key? = some key := by
  rw [Table.mem_keys]
  constructor
  · rintro ⟨schema, hget⟩
    rw [get?_buildAll] at hget
    obtain ⟨shape, hfind, hshape⟩ := Option.bind_eq_some_iff.mp hget
    obtain ⟨named, rfl, -⟩ := Option.bind_eq_some_iff.mp hshape
    exact ⟨named, List.mem_of_find?_eq_some hfind, by simpa using List.find?_some hfind⟩
  · rintro ⟨shape, hm, hkey⟩
    cases hfind : shapes.find? fun shape => shape.bind Shape.key? = some key with
    | none => exact absurd (by simpa using hkey) (by simpa using List.find?_eq_none.mp hfind _ hm)
    | some first =>
      have hfirst : first.bind Shape.key? = some key := by simpa using List.find?_some hfind
      obtain ⟨named, rfl, hnamed⟩ := Option.bind_eq_some_iff.mp hfirst
      obtain ⟨schema, ha⟩ := s.alone_isSome hnamed
      exact ⟨schema, by rw [get?_buildAll, hfind]; simpa using ha⟩

end Synthesizer

end ApiContract
