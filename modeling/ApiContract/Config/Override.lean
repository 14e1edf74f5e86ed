import ApiContract.Datum.OfJson
import ApiContract.Datum.Record
import ApiContract.Json.Encoding

namespace ApiContract

inductive RequestOverride where
  /-- A validator, by name. -/
  | validator (name : String)
  /-- A rule set. -/
  | rules (fields : Members)

inductive ResponseOverride where
  /-- A transformer or another type, by name; an ending marks a collection of it. -/
  | reference (name : String)
  | sample (value : Json) (status : Option Nat)

structure Override where
  request : Option RequestOverride := none
  response : Option ResponseOverride := none

namespace RequestOverride

def toJson : RequestOverride → Json
  | validator name => .string name
  | rules fields => .object fields

def ofDatum? (d : Datum) : Option RequestOverride :=
  match d.content? with
  | some (.string name) => some (validator name)
  | some (.object members) => some (rules (Members.ofList (Json.settleMembers members)))
  | _ => none

end RequestOverride

namespace ResponseOverride

def toJson : ResponseOverride → Json
  | reference name => .string name
  | sample value status => .object [("example", value), ("status", Json.ofOption Json.nat status)]

def statusLimit : Nat := 65535

def ofDatum? (d : Datum) : Option ResponseOverride :=
  match d.content? with
  | some (.string name) => some (reference name)
  | some (.object members) => do
    let r ← (Datum.ofJson (.object members)).record? ["example", "status"]
    return sample (← r.required? "example" Datum.value?)
      (← r.optional? "status" (Datum.nat? statusLimit))
  | _ => none

end ResponseOverride

namespace Override

def toJson (o : Override) : Json :=
  .object
    [("request", Json.ofOption RequestOverride.toJson o.request),
      ("response", Json.ofOption ResponseOverride.toJson o.response)]

def ofDatum? (d : Datum) : Option Override := do
  let r ← d.record? ["request", "response"]
  return {
    request := ← r.field? "request" none (Datum.optional? RequestOverride.ofDatum?)
    response := ← r.field? "response" none (Datum.optional? ResponseOverride.ofDatum?) }

end Override

end ApiContract
