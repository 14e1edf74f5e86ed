import Mathlib.Data.List.Nodup
import ApiContract.Datum.OfJson

namespace ApiContract

namespace Members

theorem mem_insert {members : Members} {name : String} {value : Json} {entry : String × Json}
    (h : entry ∈ members.insert name value) : entry = (name, value) ∨ entry ∈ members := by
  induction members with
  | nil => exact .inl (List.mem_singleton.mp h)
  | cons first rest ih =>
    obtain ⟨key, other⟩ := first
    rw [insert] at h
    split at h
    next hkey =>
      subst hkey
      exact (List.mem_cons.mp h).imp_right (List.mem_cons_of_mem _)
    next =>
      obtain rfl | h := List.mem_cons.mp h
      · exact .inr List.mem_cons_self
      · exact (ih h).imp_right (List.mem_cons_of_mem _)

theorem nodup_insert {members : Members} (h : members.names.Nodup) (name : String) (value : Json) :
    (members.insert name value).names.Nodup := by
  induction members with
  | nil => exact List.nodup_singleton _
  | cons first rest ih =>
    obtain ⟨key, other⟩ := first
    obtain ⟨hfirst, hrest⟩ := List.nodup_cons.mp h
    rw [insert]
    split
    next => exact h
    next hne =>
      refine List.nodup_cons.mpr ⟨fun hmem => ?_, ih hrest⟩
      obtain ⟨entry, hentry, heq⟩ := List.mem_map.mp hmem
      obtain rfl | hentry := mem_insert hentry
      · exact hne heq.symm
      · exact hfirst (List.mem_map.mpr ⟨entry, hentry, heq⟩)

theorem insert_of_not_mem {members : Members} {name : String} (h : name ∉ members.names)
    (value : Json) : members.insert name value = members ++ [(name, value)] := by
  induction members with
  | nil => rfl
  | cons first rest ih =>
    obtain ⟨key, other⟩ := first
    obtain ⟨hne, hrest⟩ := not_or.mp (mt List.mem_cons.mpr h)
    rw [insert, if_neg (Ne.symm hne), ih hrest]
    rfl

theorem mem_extend {members : Members} {entries : List (String × Json)} {entry : String × Json}
    (h : entry ∈ members.extend entries) : entry ∈ entries ∨ entry ∈ members := by
  induction entries generalizing members with
  | nil => exact .inr h
  | cons first rest ih =>
    obtain h | h := ih h
    · exact .inl (List.mem_cons_of_mem _ h)
    · obtain rfl | h := mem_insert h
      · exact .inl List.mem_cons_self
      · exact .inr h

theorem nodup_extend {members : Members} (h : members.names.Nodup)
    (entries : List (String × Json)) : (members.extend entries).names.Nodup := by
  induction entries generalizing members with
  | nil => exact h
  | cons first rest ih => exact ih (nodup_insert h first.1 first.2)

theorem extend_of_nodup {members : Members} {entries : List (String × Json)}
    (h : (Members.names (members ++ entries)).Nodup) :
    members.extend entries = members ++ entries := by
  induction entries generalizing members with
  | nil => exact (List.append_nil members).symm
  | cons first rest ih =>
    have hfirst : first.1 ∉ members.names := by
      intro hmem
      rw [names, List.map_append, List.nodup_append] at h
      exact h.2.2 _ hmem _ List.mem_cons_self rfl
    rw [List.append_cons] at h ⊢
    rw [← ih h, ← insert_of_not_mem hfirst first.2]
    rfl

theorem mem_of_mem_ofList {entries : List (String × Json)} {entry : String × Json}
    (h : entry ∈ ofList entries) : entry ∈ entries :=
  (mem_extend h).resolve_right List.not_mem_nil

theorem nodup_ofList (entries : List (String × Json)) : (ofList entries).names.Nodup :=
  @nodup_extend [] List.nodup_nil entries

theorem ofList_of_nodup {entries : List (String × Json)} (h : (Members.names entries).Nodup) :
    ofList entries = entries :=
  @extend_of_nodup [] entries h

end Members

namespace Json

def Settled (value : Json) : Prop := value.settle = value

theorem map_eq_self {α : Type} {f : α → α} {xs : List α} : xs.map f = xs ↔ ∀ x ∈ xs, f x = x := by
  simpa using List.map_inj_left (f := f) (g := id) (l := xs)

theorem settleItems_eq (items : List Json) : settleItems items = items.map settle := by
  induction items with
  | nil => rfl
  | cons item rest ih => rw [settleItems, ih, List.map_cons]

theorem settleMembers_eq (members : Members) :
    settleMembers members = members.map fun entry => (entry.1, entry.2.settle) := by
  induction members with
  | nil => rfl
  | cons entry rest ih => rw [settleMembers, ih, List.map_cons]

theorem names_settleMembers (members : Members) :
    Members.names (settleMembers members) = members.names := by
  rw [settleMembers_eq, Members.names, List.map_map]
  rfl

theorem settled_array (items : List Json) :
    (array items).Settled ↔ ∀ item ∈ items, item.Settled := by
  rw [Settled, settle, array.injEq, settleItems_eq, map_eq_self]
  rfl

theorem settled_object (members : Members) :
    (object members).Settled ↔ members.names.Nodup ∧ ∀ entry ∈ members, entry.2.Settled := by
  have hvalues : settleMembers members = members ↔ ∀ entry ∈ members, entry.2.Settled := by
    rw [settleMembers_eq, map_eq_self]
    simp only [Prod.ext_iff, true_and, Settled]
  have hsettle :
      members.names.Nodup → Members.ofList (settleMembers members) = settleMembers members :=
    fun h => Members.ofList_of_nodup (by rwa [names_settleMembers])
  rw [Settled, settle, object.injEq]
  constructor
  · intro h
    have hnodup : members.names.Nodup := h ▸ Members.nodup_ofList _
    exact ⟨hnodup, hvalues.mp ((hsettle hnodup).symm.trans h)⟩
  · rintro ⟨hnodup, h⟩
    rw [hsettle hnodup, hvalues.mpr h]

theorem settled_ofList {entries : List (String × Json)} (h : ∀ entry ∈ entries, entry.2.Settled) :
    (object (Members.ofList entries)).Settled :=
  (settled_object _).mpr
    ⟨Members.nodup_ofList entries, fun entry hm => h entry (Members.mem_of_mem_ofList hm)⟩

mutual

theorem settled_settle : ∀ value : Json, value.settle.Settled
  | array items => (settled_array _).mpr (settled_settleItems items)
  | object members => settled_ofList (settled_settleMembers members)
  | null | bool _ | number _ | string _ => rfl

theorem settled_settleItems : ∀ items : List Json, ∀ item ∈ settleItems items, item.Settled
  | [], _, h => absurd h List.not_mem_nil
  | first :: rest, item, h => by
    obtain rfl | h := List.mem_cons.mp h
    · exact settled_settle first
    · exact settled_settleItems rest item h

theorem settled_settleMembers :
    ∀ members : List (String × Json), ∀ entry ∈ settleMembers members, entry.2.Settled
  | [], _, h => absurd h List.not_mem_nil
  | (_, first) :: rest, entry, h => by
    obtain rfl | h := List.mem_cons.mp h
    · exact settled_settle first
    · exact settled_settleMembers rest entry h

end

end Json

namespace Datum

variable {name? : Datum → Option String}

mutual

theorem denote?_ofJson (hname : ∀ name, name? (ofText name) = some name) :
    ∀ value : Json, (ofJson value).denote? name? = some value
  | .array items => by rw [ofJson, denote?, denoteItems?_ofItems hname, Option.map_some]
  | .object members => by rw [ofJson, denote?, denoteEntries?_ofMembers hname, Option.map_some]
  | .null | .bool _ | .number _ | .string _ => rfl

theorem denoteItems?_ofItems (hname : ∀ name, name? (ofText name) = some name) :
    ∀ items : List Json, denoteItems? name? (ofItems items) = some items
  | [] => rfl
  | item :: rest => by
    rw [ofItems, denoteItems?, denote?_ofJson hname item, denoteItems?_ofItems hname rest]
    rfl

theorem denoteEntries?_ofMembers (hname : ∀ name, name? (ofText name) = some name) :
    ∀ members : List (String × Json), denoteEntries? name? (ofMembers members) = some members
  | [] => rfl
  | (name, value) :: rest => by
    rw [ofMembers, denoteEntries?, denote?_ofJson hname value,
      denoteEntries?_ofMembers hname rest, hname]
    rfl

end

theorem value?_ofJson (value : Json) : (ofJson value).value? = some value.settle := by
  rw [value?, denote?_ofJson fun _ => rfl, Option.map_some]

theorem content?_ofJson (value : Json) : (ofJson value).content? = some value :=
  denote?_ofJson (fun _ => rfl) value

/-- What a datum denotes is settled. -/
theorem settled_of_value? {d : Datum} {value : Json} (h : d.value? = some value) :
    value.Settled := by
  obtain ⟨written, -, rfl⟩ := Option.map_eq_some_iff.mp h
  exact Json.settled_settle written

theorem ofItems_eq (items : List Json) : ofItems items = items.map ofJson := by
  induction items with
  | nil => rfl
  | cons item rest ih => rw [ofItems, ih, List.map_cons]

theorem ofMembers_eq (members : Members) :
    ofMembers members = members.map fun entry => (ofText entry.1, ofJson entry.2) := by
  induction members with
  | nil => rfl
  | cons entry rest ih => rw [ofMembers, ih, List.map_cons]

end Datum

end ApiContract
