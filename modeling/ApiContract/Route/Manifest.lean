import ApiContract.Datum.Record
import ApiContract.Fault
import ApiContract.Json.Encoding
import ApiContract.Route.Basic
import ApiContract.Text.Shown
import ApiContract.Text.Uppercase

namespace ApiContract

structure ManifestEntry where
  uri : String := ""
  methods : List String := []
  /-- One more method. -/
  method : Option String := none
  handler : Option String := none
  name : Option String := none
  tag : Option String := none
  middleware : List String := []
deriving DecidableEq, Repr

namespace ManifestEntry

/-- An entry that names neither a path nor a method. -/
def isVacant (e : ManifestEntry) : Bool := e.uri.isEmpty && e.methods.isEmpty && e.method.isNone

/-- Methods are written in upper case. A handler that is no handler name leaves the route inline. -/
def toRoute (e : ManifestEntry) : Route where
  uri := e.uri
  methods := (e.methods ++ e.method.toList).map Text.upper
  handler := e.handler.bind HandlerId.parse?
  name := e.name
  tag := e.tag
  middleware := e.middleware

def shown (e : ManifestEntry) : String :=
  let fields :=
    [("uri", Text.shown e.uri), ("methods", Text.shownList e.methods),
      ("method", Text.shownOption e.method), ("handler", Text.shownOption e.handler),
      ("name", Text.shownOption e.name), ("prefix", Text.shownOption e.tag),
      ("middleware", Text.shownList e.middleware)]
  "ManifestRoute \x7b " ++
    String.intercalate ", " (fields.map fun (name, text) => name ++ ": " ++ text) ++ " \x7d"

def fields : List String := ["uri", "methods", "method", "handler", "name", "prefix", "middleware"]

def ofDatum? (d : Datum) : Option ManifestEntry := do
  let r ← d.record? fields
  return {
    uri := ← r.field? "uri" "" Datum.text?
    methods := ← r.field? "methods" [] (Datum.listOf? Datum.text?)
    method := ← r.field? "method" none (Datum.optional? Datum.text?)
    handler := ← r.field? "handler" none (Datum.optional? Datum.text?)
    name := ← r.field? "name" none (Datum.optional? Datum.text?)
    tag := ← r.field? "prefix" none (Datum.optional? Datum.text?)
    middleware := ← r.field? "middleware" [] (Datum.listOf? Datum.text?) }

def toJson (e : ManifestEntry) : Json :=
  .object [("uri", .string e.uri), ("methods", Json.ofTexts e.methods),
    ("method", Json.ofOption .string e.method), ("handler", Json.ofOption .string e.handler),
    ("name", Json.ofOption .string e.name), ("prefix", Json.ofOption .string e.tag),
    ("middleware", Json.ofTexts e.middleware)]

end ManifestEntry

namespace Manifest

def routes (entries : List ManifestEntry) : Except Fault (List Route) :=
  match entries.find? ManifestEntry.isVacant with
  | some e => .error (.vacantEntry e.shown)
  | none => .ok (entries.map ManifestEntry.toRoute)

end Manifest

end ApiContract
