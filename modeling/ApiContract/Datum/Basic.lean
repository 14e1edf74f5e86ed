import ApiContract.Json.Basic
import ApiContract.Table

namespace ApiContract

/-- What a scalar can be read as; which of these it is depends on who asks. -/
structure Datum.Scalar where
  text : Option String := none
  truth : Option Bool := none
  value : Option Json := none
  /-- Whether it says that there is nothing. -/
  missing : Bool := false
  /-- Whether it is blank, and so also an empty list and an empty map. -/
  hollow : Bool := false

inductive Datum where
  | scalar (s : Datum.Scalar)
  /-- The items of a list; of some formats they may stand for the fields of a record. -/
  | list (positional : Bool) (items : List Datum)
  | map (entries : List (Datum × Datum))
  /-- Data of a foreign type: its parts can be read, but it denotes no value. -/
  | tagged (inner : Datum)

namespace Datum

instance : Inhabited Datum := ⟨.scalar {}⟩

def text? : Datum → Option String
  | scalar s => s.text
  | tagged d => d.text?
  | _ => none

def truth? : Datum → Option Bool
  | scalar s => s.truth
  | tagged d => d.truth?
  | _ => none

def missing : Datum → Bool
  | scalar s => s.missing
  | _ => false

def string? : Datum → Option String
  | scalar { value := some (.string s), .. } => some s
  | _ => none

def items? : Datum → Option (List Datum)
  | scalar s => if s.hollow then some [] else none
  | list _ items => some items
  | tagged d => d.items?
  | map _ => none

def entries? : Datum → Option (List (Datum × Datum))
  | scalar s => if s.hollow then some [] else none
  | map entries => some entries
  | tagged d => d.entries?
  | list _ _ => none

mutual

/-- The value of a datum, its members as written; `name?` reads their names. -/
def denote? (name? : Datum → Option String) : Datum → Option Json
  | scalar s => s.value
  | list _ items => (denoteItems? name? items).map .array
  | map entries => (denoteEntries? name? entries).map .object
  | tagged _ => none

def denoteItems? (name? : Datum → Option String) : List Datum → Option (List Json)
  | [] => some []
  | d :: rest => do
    let value ← denote? name? d
    let values ← denoteItems? name? rest
    return value :: values

def denoteEntries? (name? : Datum → Option String) :
    List (Datum × Datum) → Option (List (String × Json))
  | [] => some []
  | (key, d) :: rest => do
    let name ← name? key
    let value ← denote? name? d
    let members ← denoteEntries? name? rest
    return (name, value) :: members

end

def value? (d : Datum) : Option Json := (d.denote? text?).map Json.settle

/-- The value of a datum whose names are texts and nothing else, members as written. -/
def content? (d : Datum) : Option Json := d.denote? string?

def nat? (limit : Nat) (d : Datum) : Option Nat :=
  match d.value? with
  | some (.number n) => n.toNat?.filter (· ≤ limit)
  | _ => none

def optional? {α : Type} (read : Datum → Option α) (d : Datum) : Option (Option α) :=
  if d.missing then some none else (read d).map some

def listOf? {α : Type} (read : Datum → Option α) (d : Datum) : Option (List α) := do
  (← d.items?).mapM read

def pairsOf? {α : Type} (read : Datum → Option α) (d : Datum) : Option (List (String × α)) := do
  (← d.entries?).mapM fun (key, d) => do return (← key.text?, ← read d)

def tableOf? {α : Type} (read : Datum → Option α) (d : Datum) : Option (Table α) :=
  (pairsOf? read d).map Table.ofList

def members? (d : Datum) : Option Members := (pairsOf? value? d).map Members.ofList

end Datum

end ApiContract
