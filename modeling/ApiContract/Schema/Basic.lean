import ApiContract.Json.Basic
import ApiContract.Table

namespace ApiContract

/-- One schema. Each part is left out where nothing is known. -/
structure Schema where
  type : Option String := none
  properties : Option (List (String × Schema)) := none
  required : Option (List String) := none
  items : Option Schema := none
  description : Option String := none
  sample : Option Json := none
  /-- Pointer to a shared definition. -/
  reference : Option String := none

namespace Schema

def key (name : String) (collection : Bool) : String :=
  if collection then name ++ "::collection" else name

/-- In a pointer a tilde and a slash of the key are written as escapes. -/
def escapeKey : List Char → List Char
  | [] => []
  | '~' :: rest => '~' :: '0' :: escapeKey rest
  | '/' :: rest => '~' :: '1' :: escapeKey rest
  | c :: rest => c :: escapeKey rest

def pointer (key : String) : String := "#/definitions/" ++ String.ofList (escapeKey key.toList)

def ofType (type : String) : Schema := { type := some type }

def withExample (type : String) (value : Json) : Schema :=
  { type := some type, sample := some value }

def toDefinition (key : String) : Schema := { reference := some (pointer key) }

def emptyObject : Schema := withExample "object" (.object [])

def typeOf : Json → String
  | .bool _ => "boolean"
  | .number (.int _) => "integer"
  | .number (.float _) => "number"
  | .string _ => "string"
  | .array _ => "array"
  | .object _ | .null => "object"

end Schema

end ApiContract
