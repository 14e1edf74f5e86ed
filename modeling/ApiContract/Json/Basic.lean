namespace ApiContract

/-- A number keeps its kind: `1` and `1.0` are different values. An integer lies in the signed or
the unsigned 64-bit range. -/
inductive Number where
  | int (value : Int)
  | float (value : Float)

inductive Json where
  | null
  | bool (value : Bool)
  | number (value : Number)
  | string (value : String)
  | array (items : List Json)
  | object (members : List (String × Json))

instance : Inhabited Json := ⟨.null⟩

namespace Number

def representable (n : Int) : Bool := -(Int.pow 2 63) ≤ n && n < Int.pow 2 64

def toSigned? : Number → Option Int
  | int n => if n < Int.pow 2 63 then some n else none
  | float _ => none

def toNat? : Number → Option Nat
  | int n => if 0 ≤ n then some n.toNat else none
  | float _ => none

def ofInt (n : Int) : Float :=
  if n < 0 then - Float.ofNat n.natAbs else Float.ofNat n.natAbs

def toFloat : Number → Float
  | int n => ofInt n
  | float x => x

end Number

abbrev Members := List (String × Json)

namespace Members

def get? (members : Members) (name : String) : Option Json := List.lookup name members

/-- Overwrites in place, or adds at the end. -/
def insert : Members → String → Json → Members
  | [], name, value => [(name, value)]
  | (n, v) :: rest, name, value =>
    if n = name then (n, value) :: rest else (n, v) :: insert rest name value

/-- Members written one after the other: the last value of a name wins, its first place stays. -/
def ofList (entries : List (String × Json)) : Members :=
  entries.foldl (fun members entry => members.insert entry.1 entry.2) []

def extend (members : Members) (entries : List (String × Json)) : Members :=
  entries.foldl (fun members entry => members.insert entry.1 entry.2) members

def names (members : Members) : List String := members.map Prod.fst

def contains (members : Members) (name : String) : Bool := (members.get? name).isSome

@[simp] theorem get?_nil (name : String) : get? [] name = none := rfl

@[simp] theorem insert_nil (name : String) (value : Json) :
    insert [] name value = [(name, value)] :=
  rfl

theorem get?_insert_self (members : Members) (name : String) (value : Json) :
    (members.insert name value).get? name = some value := by
  induction members with
  | nil => simp [get?]
  | cons entry rest ih =>
    obtain ⟨key, other⟩ := entry
    by_cases h : key = name
    · simp [insert, h, get?]
    · have h' : (name == key) = false := by simpa using fun e => h e.symm
      rw [insert, if_neg h, get?, List.lookup_cons, h']
      exact ih

end Members

namespace Json

def get? : Json → String → Option Json
  | object members, name => Members.get? members name
  | _, _ => none

def isObject : Json → Bool
  | object _ => true
  | _ => false

def nat (n : Nat) : Json := number (.int n)

mutual

def settle : Json → Json
  | array items => array (settleItems items)
  | object members => object (Members.ofList (settleMembers members))
  | value => value

def settleItems : List Json → List Json
  | [] => []
  | item :: items => settle item :: settleItems items

def settleMembers : List (String × Json) → List (String × Json)
  | [] => []
  | (name, value) :: members => (name, settle value) :: settleMembers members

end

end Json

end ApiContract
