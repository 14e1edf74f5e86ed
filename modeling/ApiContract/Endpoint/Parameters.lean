import ApiContract.Document.Basic
import ApiContract.Endpoint.Basic
import ApiContract.Rules
import ApiContract.Struct.Index

namespace ApiContract

namespace Document.Parameter

def path (name type : String) : Parameter :=
  { name, place := "path", required := true, type := some type }

def nonEmpty (text : String) : Option String := if text.isEmpty then none else some text

def itemsType (field : FieldRules) : String := field.itemsType.getD "string"

def query (field : FieldRules) : Parameter :=
  { name := field.name
    place := "query"
    required := field.required
    type := some (if field.array then "array" else field.type)
    description := nonEmpty field.description
    items := if field.array then some (.ofType (itemsType field)) else none
    collectionFormat := if field.array then some "multi" else none }

def property (field : FieldRules) : Schema :=
  { type := some (if field.array then "array" else field.type)
    items := if field.array then some (.ofType (itemsType field)) else none
    description := nonEmpty field.description }

def body (fields : List FieldRules) : Parameter :=
  let required := (fields.filter fun f => f.required).map FieldRules.name
  { name := "body"
    place := "body"
    required := true
    schema := some
      { type := some "object"
        properties := some (Table.ofList (fields.map fun f => (f.name, property f)))
        required := if required.isEmpty then none else some required } }

/-- Where the fields of a request travel depends on the verb. -/
def ofRequest (verb : Verb) (fields : List FieldRules) : List Parameter :=
  if fields.isEmpty then [] else if verb.hasBody then [body fields] else fields.map query

end Document.Parameter

namespace Endpoint

/-- Type keyword of a placeholder: that of the key of the bound domain object, or of the bound plain
value. -/
def placeholderType (structs : Structs) (keyField : String) (handler : Handler) (name : String) :
    String :=
  match handler.parameter? name with
  | some ⟨_, .domainObject, some type⟩ => structs.keyType type keyField
  | some ⟨_, .native, some type⟩ => (Primitive.keyword? (Name.short type)).getD "string"
  | _ => "string"

def pathParameters (structs : Structs) (keyField : String) (e : Endpoint) :
    List Document.Parameter :=
  (Uri.placeholders e.uri).map fun name =>
    .path name (placeholderType structs keyField e.handler name)

end Endpoint

end ApiContract
