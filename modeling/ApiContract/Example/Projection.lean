import ApiContract.Failure
import ApiContract.Struct.Index

namespace ApiContract

structure Transformers where
  structs : Structs
  wrap : Option String

structure Batch where
  items : List Json
  /-- The type of the items, where it is known. -/
  model : Option String
  collection : Bool
  paginated : Bool

namespace Transformers

def holdsModel (field : Field) (model : Option String) : Bool :=
  model.any fun m => field.type.name == m || Name.short field.type.name == Name.short m

def fieldValue (structs : Structs) (model : Option String) (item : Json) (field : Field) : Json :=
  if holdsModel field model then item
  else ((item.get? field.name).or (item.get? field.written)).getD (structs.sample field.type)

/-- Puts a field into the result; a flattened object puts its members there. -/
def put (result : Members) (field : Field) (value : Json) : Members :=
  match field.marks.flatten, value with
  | true, .object inner => result.extend inner
  | _, value => result.insert field.written value

/-- An instance as the transformer shows it. Only structs with named fields change it. -/
def project (structs : Structs) (transformer : Struct) (model : Option String) (item : Json) :
    Json :=
  if transformer.form = .named then
    let shown := transformer.fields.filter fun f => !f.marks.skip
    .object
      (shown.foldl (fun result field => put result field (fieldValue structs model item field)) [])
  else item

def pageSize : Nat := 15

/-- The envelope of a first page. Links and numbers take the place of items under their names. -/
def page (items : List Json) (key : String) : Json :=
  let position (n : Nat) : Json := if items.isEmpty then .null else .nat n
  .object (Members.ofList [(key, .array items), ("links", .object [("first", .string "/?page=1"),
        ("last", .string "/?page=1"), ("prev", .null), ("next", .null)]),
    ("meta", .object [("current_page", .nat 1), ("from", position 1), ("last_page", .nat 1),
        ("path", .string "/"), ("per_page", .nat pageSize), ("to", position items.length),
        ("total", .nat items.length)])])

def envelope (wrap : Option String) (body : Json) : Json :=
  match wrap with
  | some key => .object [(key, body)]
  | none => body

def render (t : Transformers) (name : String) (batch : Batch) : Except Failure Json :=
  match t.structs.find? name with
  | none => .error (.exampleUnavailable name "transformer definition not found")
  | some transformer =>
    let items := batch.items.map (project t.structs transformer batch.model)
    if batch.paginated then .ok (page items (t.wrap.getD "data"))
    else if batch.collection then .ok (envelope t.wrap (.array items))
    else
      match items with
      | item :: _ => .ok (envelope t.wrap item)
      | [] => .error (.exampleUnavailable name "no instance to render")

end Transformers

end ApiContract
