namespace ApiContract

/-- A table is the list of its entries. -/
abbrev Table (α : Type) := List (String × α)

namespace Table

variable {α : Type}

def get? (table : Table α) (key : String) : Option α := List.lookup key table

def contains (table : Table α) (key : String) : Bool := (get? table key).isSome

def insert : Table α → String → α → Table α
  | [], key, value => [(key, value)]
  | (k, v) :: rest, key, value =>
    if key = k then (key, value) :: rest
    else if key < k then (key, value) :: (k, v) :: rest
    else (k, v) :: insert rest key value

/-- Of several values for one key the last one counts. -/
def ofList (entries : List (String × α)) : Table α :=
  entries.foldl (fun table entry => insert table entry.1 entry.2) []

def keys (table : Table α) : List String := table.map Prod.fst

@[simp] theorem get?_nil (key : String) : get? ([] : Table α) key = none := rfl

theorem get?_insert_self (table : Table α) (key : String) (value : α) :
    get? (insert table key value) key = some value := by
  induction table with
  | nil => simp [insert, get?]
  | cons entry rest ih =>
    simp only [insert]
    split
    · simp [get?]
    · next h =>
      split
      · simp [get?]
      · have h' : (key == entry.1) = false := by simpa using h
        rw [get?, List.lookup_cons, h']
        exact ih

end Table

abbrev NameSet := List String

namespace NameSet

def insert : NameSet → String → NameSet
  | [], name => [name]
  | n :: rest, name =>
    if name = n then n :: rest else if name < n then name :: n :: rest else n :: insert rest name

def ofList (names : List String) : NameSet := names.foldl insert []

end NameSet

end ApiContract
