import ApiContract.Document.Basic
import ApiContract.Json.Encoding

namespace ApiContract

open Json

def Json.whenSome {α : Type} (name : String) (encode : α → Json) : Option α → Members
  | some x => [(name, encode x)]
  | none => []

def Json.whenText (name text : String) : Members :=
  if text.isEmpty then [] else [(name, .string text)]

def Json.whenAny {α : Type} (name : String) (encode : α → Json) (items : List α) : Members :=
  if items.isEmpty then [] else [(name, Json.ofList encode items)]

namespace Schema

mutual

def toJson : Schema → Json
  | ⟨type, properties, required, items, description, sample, reference⟩ =>
    .object (whenSome "type" .string type ++ propertiesMember properties ++
      whenSome "required" ofTexts required ++ itemsMember items ++
      whenSome "description" .string description ++ whenSome "example" id sample ++
      whenSome "$ref" .string reference)

def propertiesMember : Option (List (String × Schema)) → Members
  | some properties => [("properties", .object (propertiesToJson properties))]
  | none => []

def propertiesToJson : List (String × Schema) → Members
  | [] => []
  | (name, schema) :: rest => (name, toJson schema) :: propertiesToJson rest

def itemsMember : Option Schema → Members
  | some schema => [("items", toJson schema)]
  | none => []

end

end Schema

namespace Document

def Info.toJson (i : Info) : Json :=
  .object ([("version", .string i.version), ("title", .string i.title)] ++
    whenText "description" i.description)

def SecurityScheme.toJson (s : SecurityScheme) : Json :=
  .object [("type", .string s.type), ("name", .string s.name), ("in", .string s.place)]

def tagToJson (name : String) : Json := .object [("name", .string name)]

def Parameter.toJson (p : Parameter) : Json :=
  .object ([("name", .string p.name), ("in", .string p.place), ("required", .bool p.required)] ++
    whenSome "type" .string p.type ++ whenSome "description" .string p.description ++
    whenSome "items" Schema.toJson p.items ++
    whenSome "collectionFormat" .string p.collectionFormat ++
    whenSome "schema" Schema.toJson p.schema)

def Response.toJson (r : Response) : Json :=
  .object [("description", .string r.description), ("schema", r.schema.toJson)]

def Operation.toJson (o : Operation) : Json :=
  .object (whenText "summary" o.summary ++ whenText "description" o.description ++
    [("security", ofList (ofTable ofTexts) o.security)] ++ whenAny "tags" .string o.tags ++
    [("operationId", .string o.id), ("consumes", ofTexts o.consumes),
      ("produces", ofTexts o.produces)] ++
    whenAny "parameters" Parameter.toJson o.parameters ++
    [("responses", ofTable Response.toJson o.responses)] ++
    whenAny "x-middleware" .string o.middleware)

def PathItem.toJson (item : PathItem) : Json :=
  .object (whenSome "get" Operation.toJson item.get ++ whenSome "post" Operation.toJson item.post ++
    whenSome "put" Operation.toJson item.put ++ whenSome "patch" Operation.toJson item.patch ++
    whenSome "delete" Operation.toJson item.delete ++
    whenSome "options" Operation.toJson item.options ++ whenSome "head" Operation.toJson item.head)

def toJson (d : Document) : Json :=
  .object ([("swagger", .string d.swagger), ("info", d.info.toJson),
      ("securityDefinitions", ofTable SecurityScheme.toJson d.securityDefinitions)] ++
    whenAny "tags" tagToJson d.tags ++ [("paths", ofTable PathItem.toJson d.paths),
      ("definitions", ofTable Schema.toJson d.definitions)])

end Document

end ApiContract
