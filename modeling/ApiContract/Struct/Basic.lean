import ApiContract.Module.Scope
import ApiContract.Source.File
import ApiContract.Source.Meta
import ApiContract.Struct.Primitive

namespace ApiContract

open Source

/-- Type of a field. An option and a vector are marks on the type inside them. -/
structure FieldType where
  name : String
  args : List FieldType := []
  optional : Bool := false
  list : Bool := false

namespace FieldType

def unknown : FieldType := { name := "Unknown" }

instance : Inhabited FieldType := ⟨unknown⟩

def ofSegments (scope : Scope) (names : List String) (args : List FieldType) : FieldType :=
  match names.getLast?, args with
  | none, _ => unknown
  | some "Option", inside :: _ => { inside with optional := true }
  | some "Vec", inside :: _ => { inside with list := true }
  | some last, args =>
    if (Primitive.keyword? last).isSome then { name := last }
    else { name := scope.resolve (Name.join names), args }

mutual

def ofExpr (scope : Scope) : TypeExpr → FieldType
  | .path (.mk _ segments) => ofSegments scope (segments.map Segment.name) (ofLast scope segments)
  | .reference target => ofExpr scope target
  | _ => unknown

def ofLast (scope : Scope) : List Segment → List FieldType
  | [] => []
  | .mk _ arguments :: rest =>
    if rest.isEmpty then ofArguments scope arguments else ofLast scope rest

def ofArguments (scope : Scope) : Arguments → List FieldType
  | .angled args => ofArgs scope args
  | _ => []

def ofArgs (scope : Scope) : List GenericArg → List FieldType
  | [] => []
  | .type type :: rest => ofExpr scope type :: ofArgs scope rest
  | .other :: rest => ofArgs scope rest

end

end FieldType

structure FieldMarks where
  rename : Option String := none
  skip : Bool := false
  flatten : Bool := false
deriving DecidableEq, Repr

namespace FieldMarks

open Reading in
/-- One entry of a `serde` attribute. An unknown entry may have a value, which has to be an
expression. -/
def entry (path : Path) (marks : FieldMarks) : Reader FieldMarks := do
  match path.ident? with
  | some "rename" =>
    takeOp "="
    match ← ahead with
    | .literal (.string name) :: _ => Reading.skip 1; return { marks with rename := some name }
    | _ => failure
  | some "skip" | some "skip_serializing" => return { marks with skip := true }
  | some "flatten" => return { marks with flatten := true }
  | _ =>
    if ← acceptOp "=" then
      let tokens ← ahead
      let _ ← (Grammar.forTokens tokens).expr
      return marks
    else return marks

def ofAttributes (attributes : List Attribute) : FieldMarks :=
  (Meta.lists "serde" attributes).foldl (Meta.fold entry) {}

end FieldMarks

structure Field where
  name : String
  type : FieldType
  marks : FieldMarks

def Field.written (field : Field) : String := field.marks.rename.getD field.name

inductive StructForm where
  | named | tuple | unit
deriving DecidableEq, Repr

structure Struct where
  /-- Canonical name. -/
  name : String
  form : StructForm
  fields : List Field

namespace Struct

def ofFields (scope : Scope) (name : String) : Fields → Struct
  | .named fields =>
    ⟨name, .named, fields.map fun f =>
        ⟨f.name, FieldType.ofExpr scope f.type, FieldMarks.ofAttributes f.attributes⟩⟩
  | .positional => ⟨name, .tuple, []⟩
  | .unit => ⟨name, .unit, []⟩

def ofScope (scope : Scope) : List Struct :=
  scope.items.filterMap fun
    | .struct _ name fields _ => some (ofFields scope (scope.moduleName ++ "::" ++ name) fields)
    | _ => none

end Struct

end ApiContract
