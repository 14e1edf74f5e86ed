import ApiContract.Json.Basic

namespace ApiContract.Json

/-- A value is another one, or stands somewhere inside it. -/
inductive Occurs (part : Json) : Json → Prop where
  | here : Occurs part part
  | item {items : List Json} {item : Json} (hitem : item ∈ items) (h : Occurs part item) :
      Occurs part (.array items)
  | member {members : Members} {entry : String × Json} (hentry : entry ∈ members)
      (h : Occurs part entry.2) : Occurs part (.object members)

mutual

def nesting : Json → Nat
  | array items => nestingOfItems items + 1
  | object members => nestingOfMembers members + 1
  | _ => 0

def nestingOfItems : List Json → Nat
  | [] => 0
  | item :: items => max (nesting item) (nestingOfItems items)

def nestingOfMembers : List (String × Json) → Nat
  | [] => 0
  | (_, value) :: members => max (nesting value) (nestingOfMembers members)

end

theorem nesting_array_le {items : List Json} {n : Nat} :
    (array items).nesting ≤ n + 1 ↔ ∀ item ∈ items, item.nesting ≤ n := by
  rw [nesting, Nat.add_le_add_iff_right]
  induction items with
  | nil => exact iff_of_true (Nat.zero_le n) (fun _ h => absurd h List.not_mem_nil)
  | cons item items ih => rw [nestingOfItems, Nat.max_le, ih, List.forall_mem_cons]

theorem nesting_object_le {members : Members} {n : Nat} :
    (object members).nesting ≤ n + 1 ↔ ∀ entry ∈ members, entry.2.nesting ≤ n := by
  rw [nesting, Nat.add_le_add_iff_right]
  induction members with
  | nil => exact iff_of_true (Nat.zero_le n) (fun _ h => absurd h List.not_mem_nil)
  | cons entry members ih => rw [nestingOfMembers, Nat.max_le, ih, List.forall_mem_cons]

theorem Occurs.eq_of_nesting {part value : Json} (h : Occurs part value)
    (hleaf : value.nesting = 0) : part = value := by
  cases h with
  | here => rfl
  | item => exact absurd hleaf (Nat.succ_ne_zero _)
  | member => exact absurd hleaf (Nat.succ_ne_zero _)

end ApiContract.Json
