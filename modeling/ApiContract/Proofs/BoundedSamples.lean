import ApiContract.Proofs.NestedSamples
import ApiContract.Proofs.NestedValues
import ApiContract.Proofs.SettledDefinitions

namespace ApiContract

namespace Primitive

theorem nesting_sample (keyword : String) : (sample keyword).nesting = 0 := by
  rw [sample]
  split
  · rfl
  split
  · rfl
  split <;> rfl

end Primitive

/-- An object that has the fields of a struct that are not skipped, under their written names and no
others. -/
def Struct.Shows (s : Struct) (members : Members) : Prop :=
  members.names.Nodup ∧
    ∀ name, name ∈ members.names ↔ ∃ f ∈ s.fields, f.marks.skip = false ∧ f.written = name

theorem Members.mem_names_ofList {entries : List (String × Json)} {name : String} :
    name ∈ (ofList entries).names ↔ ∃ entry ∈ entries, entry.1 = name := by
  rw [ofList, names_foldl_insert]
  simp [names]

theorem Struct.shows_ofList (s : Struct) (value : Field → Json) :
    s.Shows (Members.ofList (s.shown.map fun f => (f.written, value f))) := by
  refine ⟨Members.nodup_ofList _, fun name => ?_⟩
  rw [Members.mem_names_ofList]
  simp [shown, and_assoc]

namespace Structs

variable {structs : Structs} {type : FieldType}

theorem nesting_sampleOf_none : (structs.sampleOf none type).nesting = 0 := by
  cases hkeyword : Primitive.keyword? type.name with
  | some keyword =>
    rw [structs.sampleOf_primitive none hkeyword]
    exact Primitive.nesting_sample keyword
  | none =>
    rw [sampleOf_none hkeyword]
    rfl

theorem sampleWithin_zero (hlist : type.list = false) :
    structs.sampleWithin 0 type = structs.sampleOf none type := by
  simp [sampleWithin, hlist]

theorem nesting_sampleWithin (depth : Nat) (type : FieldType) :
    (structs.sampleWithin depth type).nesting ≤ depth + 1 := by
  induction depth generalizing type with
  | zero =>
    cases hlist : type.list with
    | true =>
      rw [sampleWithin_zero_of_list hlist, Json.nesting_array_le, List.forall_mem_singleton,
        nesting_sampleOf_none]
    | false =>
      rw [sampleWithin_zero hlist, nesting_sampleOf_none]
      exact Nat.zero_le 1
  | succ depth ih =>
    cases hlist : type.list with
    | true =>
      rw [sampleWithin_of_list hlist, Json.nesting_array_le, List.forall_mem_singleton]
      exact ih type.item
    | false =>
      cases hrecord : structs.record? type with
      | none =>
        rw [sampleWithin_of_none hlist hrecord, nesting_sampleOf_none]
        exact Nat.zero_le _
      | some s =>
        rw [sampleWithin_of_record hrecord, Json.nesting_object_le]
        intro entry hentry
        obtain ⟨f, -, rfl⟩ := List.mem_map.mp (Members.mem_of_mem_ofList hentry)
        exact ih f.type

theorem exists_struct_of_occurs {depth : Nat} {members : Members}
    (h : Json.Occurs (.object members) (structs.sampleWithin depth type)) :
    ∃ key s, (key, s) ∈ structs ∧ s.form = .named ∧ s.Shows members := by
  have hleaf :
      ∀ type : FieldType, ¬ Json.Occurs (.object members) (structs.sampleOf none type) := by
    intro type hoccurs
    have hobject := congrArg Json.isObject (hoccurs.eq_of_nesting nesting_sampleOf_none)
    rw [isObject_sampleOf_none] at hobject
    cases hobject
  induction depth generalizing type with
  | zero =>
    cases hlist : type.list with
    | true =>
      rw [sampleWithin_zero_of_list hlist] at h
      cases h with
      | item hitem h =>
        rw [List.mem_singleton.mp hitem] at h
        exact absurd h (hleaf type.item)
    | false =>
      rw [sampleWithin_zero hlist] at h
      exact absurd h (hleaf type)
  | succ depth ih =>
    cases hlist : type.list with
    | true =>
      rw [sampleWithin_of_list hlist] at h
      cases h with
      | item hitem h =>
        rw [List.mem_singleton.mp hitem] at h
        exact ih h
    | false =>
      cases hrecord : structs.record? type with
      | none =>
        rw [sampleWithin_of_none hlist hrecord] at h
        exact absurd h (hleaf type)
      | some s =>
        rw [sampleWithin_of_record hrecord] at h
        cases h with
        | here =>
          obtain ⟨-, -, hfind, hform⟩ := record?_eq_some.mp hrecord
          obtain ⟨key, hkey⟩ := Name.mem_of_lookup? hfind
          exact ⟨key, s, hkey, hform, s.shows_ofList _⟩
        | member hentry h =>
          obtain ⟨f, -, rfl⟩ := List.mem_map.mp (Members.mem_of_mem_ofList hentry)
          exact ih h

/-- A sample of any type is nested five deep at most, whatever structs there are, and every object
in it is that of a struct with named fields. -/
theorem bounded_sample (structs : Structs) (type : FieldType) : (structs.sample type).nesting ≤ 5 ∧
    ∀ members, Json.Occurs (.object members) (structs.sample type) →
      ∃ key s, (key, s) ∈ structs ∧ s.form = .named ∧ s.Shows members :=
  ⟨nesting_sampleWithin depthLimit type, fun _ h => exists_struct_of_occurs h⟩

def nodeStructs : Structs :=
  [("crate::Node", ⟨"crate::Node", .named,
      [⟨"next", { name := "crate::Node", optional := true }, {}⟩,
        ⟨"rest", { name := "crate::Node", list := true }, {}⟩]⟩)]

/-- Four nodes and a list, each inside the one before. -/
theorem bounded_sample_node : (nodeStructs.sample { name := "crate::Node" }).nesting = 5 ∧
    ∃ members, nodeStructs.sample { name := "crate::Node" } = .object members ∧
      ∃ key s, (key, s) ∈ nodeStructs ∧ s.form = .named ∧ s.Shows members := by
  obtain ⟨members, hmembers⟩ :
      ∃ members, nodeStructs.sample { name := "crate::Node" } = .object members :=
    Json.exists_members (by decide)
  refine ⟨by decide, members, hmembers, ?_⟩
  exact (bounded_sample nodeStructs { name := "crate::Node" }).2 members (hmembers ▸ .here)

end Structs

end ApiContract
