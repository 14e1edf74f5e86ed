import ApiContract.Struct.Basic

namespace ApiContract

abbrev Structs := Table Struct

namespace Structs

def ofScopes (scopes : List Scope) : Structs :=
  Table.ofList ((scopes.flatMap Struct.ofScope).map fun s => (s.name, s))

def ofFiles (files : List ParsedFile) : Structs := ofScopes (files.flatMap Scope.ofFile)

def find? (structs : Structs) (type : String) : Option Struct := Name.lookup? structs type

/-- Type keyword of the key of a domain object: a number only if its key field is one. -/
def keyType (structs : Structs) (type key : String) : String :=
  let field := (structs.find? type).bind fun s => s.fields.find? fun f => f.name == key
  if (field.bind fun f => Primitive.keyword? f.type.name) = some "integer" then "integer"
  else "string"

def sampleOf (structs : Structs) (inner : Option (FieldType → Json)) (type : FieldType) : Json :=
  match Primitive.keyword? type.name with
  | some keyword => Primitive.sample keyword
  | none =>
    match structs.find? type.name, inner with
    | some ⟨_, .named, fields⟩, some inner =>
      .object (Members.ofList
        ((fields.filter fun f => !f.marks.skip).map fun f => (f.written, inner f.type)))
    | _, _ => .null

def sampleWithin (structs : Structs) : Nat → FieldType → Json
  | 0, type =>
    let item := structs.sampleOf none type
    if type.list then .array [item] else item
  | depth + 1, type =>
    if type.list then
      .array [sampleWithin structs depth { type with optional := false, list := false }]
    else structs.sampleOf (some (sampleWithin structs depth)) type

/-- Deeper structs have no sample, so that recursive types have one. -/
def depthLimit : Nat := 4

def sample (structs : Structs) (type : FieldType) : Json := structs.sampleWithin depthLimit type

end Structs

end ApiContract
