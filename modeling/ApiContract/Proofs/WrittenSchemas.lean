import ApiContract.Document.Decode
import ApiContract.Proofs.Records

namespace ApiContract

open Json

def Json.isNull : Json → Bool
  | null => true
  | _ => false

theorem Json.missing_ofJson (value : Json) : (Datum.ofJson value).missing = value.isNull := by
  cases value <;> rfl

theorem Json.isNull_settle (value : Json) : value.settle.isNull = value.isNull := by
  cases value <;> rfl

namespace Record

theorem part?_eq {α : Type} (r : Record) (name : String) (read : Datum → Option α) :
    (r.part? name fun d _ => read d) = r.optional? name read := by
  unfold part? optional?
  split
  next d h =>
    simp only [h]
    rfl
  next h => simp only [h]

end Record

theorem Datum.pairsWithin?_eq {α : Type} (d : Datum) (read : Datum → Option α) :
    (d.pairsWithin? fun x _ => read x) = pairsOf? read d := by
  unfold pairsWithin? pairsOf?
  split
  next entries h =>
    simp only [h, Option.bind_eq_bind, Option.bind_some]
    conv_rhs => rw [← List.attach_map_subtype_val entries, List.mapM_map]
    rfl
  next h =>
    simp only [h]
    rfl

namespace Schema

/-- The properties are in order and every sample is as `p` says, in the schema and in all that it
consists of. -/
inductive Orderly (p : Json → Prop) : Schema → Prop where
  | intro {s : Schema} (sample : ∀ value, s.sample = some value → p value)
      (sorted : ∀ properties, s.properties = some properties → Table.Sorted properties)
      (properties :
        ∀ properties, s.properties = some properties → ∀ entry ∈ properties, Orderly p entry.2)
      (items : ∀ items, s.items = some items → Orderly p items) : Orderly p s

mutual

def withoutNulls : Schema → Schema
  | ⟨type, properties, required, items, description, sample, reference⟩ =>
    ⟨type, propertiesWithoutNulls properties, required, itemsWithoutNulls items, description,
      sample.filter fun value => !value.isNull, reference⟩

def propertiesWithoutNulls : Option (List (String × Schema)) → Option (List (String × Schema))
  | some properties => some (allWithoutNulls properties)
  | none => none

def allWithoutNulls : List (String × Schema) → List (String × Schema)
  | [] => []
  | (name, schema) :: rest => (name, withoutNulls schema) :: allWithoutNulls rest

def itemsWithoutNulls : Option Schema → Option Schema
  | some schema => some (withoutNulls schema)
  | none => none

end

theorem ofDatum?_eq (d : Datum) :
    ofDatum? d = do
      let r ← d.record? fields
      let properties ← r.optional? "properties" (Datum.pairsOf? ofDatum?)
      let items ← r.optional? "items" ofDatum?
      return {
        type := ← r.optional? "type" Datum.text?
        properties := properties.map Table.ofList
        required := ← r.optional? "required" (Datum.listOf? Datum.text?)
        items
        description := ← r.optional? "description" Datum.text?
        sample := ← r.optional? "example" Datum.value?
        reference := ← r.optional? "$ref" Datum.text? } := by
  rw [ofDatum?]
  split
  next h =>
    simp only [h]
    rfl
  next r h =>
    simp only [h, Record.part?_eq, Datum.pairsWithin?_eq]
    rfl

theorem propertiesToJson_eq (properties : Table Schema) :
    propertiesToJson properties = properties.map fun entry => (entry.1, entry.2.toJson) := by
  induction properties with
  | nil => rfl
  | cons entry rest ih => rw [propertiesToJson, ih, List.map_cons]

theorem allWithoutNulls_eq (properties : Table Schema) :
    allWithoutNulls properties = properties.map fun entry => (entry.1, entry.2.withoutNulls) := by
  induction properties with
  | nil => rfl
  | cons entry rest ih => rw [allWithoutNulls, ih, List.map_cons]

theorem withoutNulls_eq (s : Schema) :
    s.withoutNulls = { s with
      properties :=
        s.properties.map fun table => table.map fun entry => (entry.1, entry.2.withoutNulls)
      items := s.items.map withoutNulls
      sample := s.sample.filter fun value => !value.isNull } := by
  obtain ⟨type, properties, required, items, description, sample, reference⟩ := s
  have hproperties : propertiesWithoutNulls properties =
      properties.map fun table => table.map fun entry => (entry.1, entry.2.withoutNulls) := by
    cases properties with
    | none => rfl
    | some table => rw [propertiesWithoutNulls, allWithoutNulls_eq, Option.map_some]
  have hitems : itemsWithoutNulls items = items.map withoutNulls := by
    cases items <;> rfl
  rw [withoutNulls, hproperties, hitems]

def members (s : Schema) : Members :=
  whenSome "type" .string s.type ++ whenSome "properties" (Json.ofTable toJson) s.properties ++
    whenSome "required" Json.ofTexts s.required ++ whenSome "items" toJson s.items ++
    whenSome "description" .string s.description ++ whenSome "example" id s.sample ++
    whenSome "$ref" .string s.reference

theorem toJson_eq (s : Schema) : s.toJson = .object s.members := by
  obtain ⟨type, properties, required, items, description, sample, reference⟩ := s
  have hproperties :
      propertiesMember properties = whenSome "properties" (Json.ofTable toJson) properties := by
    cases properties with
    | none => rfl
    | some table => rw [propertiesMember, propertiesToJson_eq, whenSome, Json.ofTable]
  have hitems : itemsMember items = whenSome "items" toJson items := by
    cases items <;> rfl
  rw [toJson, hproperties, hitems, members]

theorem follows_members (s : Schema) : s.members.Follows fields :=
  ((((((Members.follows_whenSome "type" _ _).append
    (Members.follows_whenSome "properties" _ _)).append
    (Members.follows_whenSome "required" _ _)).append (Members.follows_whenSome "items" _ _)).append
    (Members.follows_whenSome "description" _ _)).append
    (Members.follows_whenSome "example" _ _)).append (Members.follows_whenSome "$ref" _ _)

theorem isNull_toJson (s : Schema) : s.toJson.isNull = false := by
  rw [toJson_eq]
  rfl

theorem optional?_sample {members : Members} {name : String} {sample : Option Json}
    (h : members.get? name = sample) (hsettled : ∀ value, sample = some value → value.Settled) :
    (Record.ofMembers members).optional? name Datum.value? =
      some (sample.filter fun value => !value.isNull) := by
  cases sample with
  | none => exact Record.optional?_absent h
  | some value =>
    rw [Record.optional?_given h, Datum.optional?, Json.missing_ofJson, Datum.value?_ofJson,
      hsettled value rfl]
    cases hnull : value.isNull <;> simp [Option.filter, hnull]

theorem ofDatum?_toJson {s : Schema} (h : s.Orderly Json.Settled) :
    ofDatum? (Datum.ofJson s.toJson) = some s.withoutNulls := by
  induction h with
  | @intro s hsample hsorted _ _ hproperties hitems =>
    have htype : s.members.get? "type" = s.type.map .string := by simp [members]
    have hproperties' : s.members.get? "properties" = s.properties.map (Json.ofTable toJson) := by
      simp [members]
    have hrequired : s.members.get? "required" = s.required.map Json.ofTexts := by simp [members]
    have hitems' : s.members.get? "items" = s.items.map toJson := by simp [members]
    have hdescription : s.members.get? "description" = s.description.map .string := by
      simp [members]
    have hsample' : s.members.get? "example" = s.sample := by simp [members]
    have hreference : s.members.get? "$ref" = s.reference.map .string := by simp [members]
    have hreadProperties :
        (Record.ofMembers s.members).optional? "properties" (Datum.pairsOf? ofDatum?) =
          some (s.properties.map fun table =>
            table.map fun entry => (entry.1, entry.2.withoutNulls)) := by
      refine Record.optional?_ofMembers hproperties' fun table htable => ⟨rfl, ?_⟩
      exact Datum.pairsOf?_ofTable fun entry hentry => hproperties table htable entry hentry
    have hreadItems : (Record.ofMembers s.members).optional? "items" ofDatum? =
        some (s.items.map withoutNulls) := by
      refine Record.optional?_ofMembers hitems' fun items h => ⟨?_, hitems items h⟩
      rw [Json.missing_ofJson, isNull_toJson]
    have hreadRequired :
        (Record.ofMembers s.members).optional? "required" (Datum.listOf? Datum.text?) =
          some s.required :=
      Record.optional?_same hrequired fun texts => ⟨rfl, Datum.listOf?_ofTexts texts⟩
    have hordered :
        (s.properties.map fun table => table.map fun entry => (entry.1, entry.2.withoutNulls)).map
            Table.ofList =
          s.properties.map fun table => table.map fun entry => (entry.1, entry.2.withoutNulls) := by
      cases htable : s.properties with
      | none => rfl
      | some table =>
        exact congrArg some (Table.ofList_of_sorted (Datum.sorted_map (hsorted table htable) _))
    rw [toJson_eq, ofDatum?_eq, Datum.record?_object s.follows_members (by decide)]
    simp only [hreadProperties, hreadItems, hreadRequired, Record.optional?_text htype,
      Record.optional?_text hdescription, Record.optional?_text hreference,
      optional?_sample hsample' hsample, hordered, bind, Option.bind, pure]
    rw [withoutNulls_eq]

theorem orderly_of_ofDatum? {d : Datum} (hd : d.IsJson) {s : Schema} (h : ofDatum? d = some s) :
    s.Orderly fun value => value.Settled ∧ value.isNull = false := by
  induction hsize : sizeOf d using Nat.strongRecOn generalizing d s with
  | _ size ih =>
    subst hsize
    rw [ofDatum?_eq] at h
    obtain ⟨r, hr, h⟩ := Option.bind_eq_some_iff.mp h
    obtain ⟨properties, hproperties, h⟩ := Option.bind_eq_some_iff.mp h
    obtain ⟨items, hitems, h⟩ := Option.bind_eq_some_iff.mp h
    obtain ⟨type, -, h⟩ := Option.bind_eq_some_iff.mp h
    obtain ⟨required, -, h⟩ := Option.bind_eq_some_iff.mp h
    obtain ⟨description, -, h⟩ := Option.bind_eq_some_iff.mp h
    obtain ⟨sample, hsample, h⟩ := Option.bind_eq_some_iff.mp h
    obtain ⟨reference, -, h⟩ := Option.bind_eq_some_iff.mp h
    obtain rfl := Option.some.inj h
    apply Orderly.intro
    · intro value hvalue
      obtain ⟨x, hx, hmissing, hread⟩ := Datum.exists_part_of_optional? hr hsample value hvalue
      refine ⟨Datum.settled_of_value? hread, ?_⟩
      obtain ⟨written, rfl⟩ := hd.part hx
      rw [Datum.value?_ofJson] at hread
      rw [← Option.some.inj hread, Json.isNull_settle, ← Json.missing_ofJson, hmissing]
    · intro table htable
      obtain ⟨pairs, -, rfl⟩ := Option.map_eq_some_iff.mp htable
      exact Table.sorted_ofList pairs
    · intro table htable entry hentry
      obtain ⟨pairs, hpairs, rfl⟩ := Option.map_eq_some_iff.mp htable
      obtain ⟨x, hx, -, hread⟩ := Datum.exists_part_of_optional? hr hproperties pairs hpairs
      obtain ⟨y, hy, hread⟩ :=
        Datum.exists_part_of_pairsOf? hread entry (Table.mem_of_mem_ofList hentry)
      exact ih (sizeOf y) (Nat.lt_trans hy.sizeOf_lt hx.sizeOf_lt) ((hd.part hx).part hy) hread rfl
    · intro part hpart
      obtain ⟨x, hx, -, hread⟩ := Datum.exists_part_of_optional? hr hitems part hpart
      exact ih (sizeOf x) hx.sizeOf_lt (hd.part hx) hread rfl

theorem Orderly.withoutNulls_eq_self {s : Schema}
    (h : s.Orderly fun value => value.isNull = false) : s.withoutNulls = s := by
  induction h with
  | @intro s hsample _ _ _ hproperties hitems =>
    have hsame :
        (s.properties.map fun table => table.map fun entry => (entry.1, entry.2.withoutNulls)) =
          s.properties := by
      cases htable : s.properties with
      | none => rfl
      | some table =>
        refine congrArg some (Json.map_eq_self.mpr fun entry hentry => ?_)
        rw [hproperties table htable entry hentry]
    have hsameItems : s.items.map Schema.withoutNulls = s.items := by
      cases h : s.items with
      | none => rfl
      | some items => exact congrArg some (hitems items h)
    have hsameSample : (s.sample.filter fun value => !value.isNull) = s.sample := by
      cases h : s.sample with
      | none => rfl
      | some value => simp [Option.filter, hsample value h]
    rw [Schema.withoutNulls_eq, hsame, hsameItems, hsameSample]
    cases s
    rfl

theorem Orderly.imp {p q : Json → Prop} (hpq : ∀ value, p value → q value) {s : Schema}
    (h : s.Orderly p) : s.Orderly q := by
  induction h with
  | intro sample sorted _ _ properties items =>
    exact .intro (fun value hvalue => hpq value (sample value hvalue)) sorted properties items

theorem orderly_ofType (p : Json → Prop) (type : String) : (ofType type).Orderly p := by
  constructor <;> simp [ofType]

theorem orderly_toDefinition (p : Json → Prop) (key : String) : (toDefinition key).Orderly p := by
  constructor <;> simp [toDefinition]

theorem orderly_withExample {p : Json → Prop} {value : Json} (h : p value) (type : String) :
    (withExample type value).Orderly p := by
  constructor <;> simp [withExample, h]

end Schema

end ApiContract
