import ApiContract.Failure
import ApiContract.Json.Basic
import ApiContract.Name
import ApiContract.Table

namespace ApiContract

structure Fixture where
  attributes : Members := []
  variants : Table Members := []

structure Fixtures where
  table : Table Fixture
  variant : String

namespace Fixtures

/-- The moment that stored instances carry, the same in every run. -/
def storedAt : Json := .string "2024-01-01T00:00:00.000000Z"

def ensure (attributes : Members) (name : String) (value : Json) : Members :=
  if attributes.contains name then attributes else attributes.insert name value

/-- Attributes of a stored instance: a number as its key, before all others, and two moments. -/
def store (place : Nat) (attributes : Members) : Members :=
  let keyed :=
    if attributes.contains "id" then attributes else ("id", .nat (place + 1)) :: attributes
  ensure (ensure keyed "created_at" storedAt) "updated_at" storedAt

def instanceAt (fixtures : Fixtures) (stored : Bool) (fixture : Fixture) (place : Nat) : Json :=
  let attributes := fixture.attributes.extend ((fixture.variants.get? fixtures.variant).getD [])
  .object (if stored then store place attributes else attributes)

def names (fixtures : Fixtures) : List String := fixtures.table.keys

def instances (fixtures : Fixtures) (stored : Bool) (type : String) (count : Nat) :
    Except Failure (List Json) :=
  match Name.lookup? fixtures.table type with
  | some fixture => .ok ((List.range count).map (fixtures.instanceAt stored fixture))
  | none => .error (.exampleUnavailable type "no factory is defined for this type")

end Fixtures

end ApiContract
