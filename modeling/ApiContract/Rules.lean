import ApiContract.Json.Printer
import ApiContract.Text.Pieces

namespace ApiContract

structure FieldRules where
  name : String
  required : Bool := false
  /-- Type keyword of the field's value. -/
  type : String := "string"
  array : Bool := false
  /-- Type keyword of the items, where rules speak of them. -/
  itemsType : Option String := none
  notes : List String := []
deriving DecidableEq, Repr

namespace Rules

structure Rule where
  name : String
  args : List String
deriving DecidableEq, Repr

def Rule.parse (token : String) : Rule :=
  match Text.splitFirst? ':' token.toList with
  | some (name, args) =>
    ⟨Text.trim (String.ofList name), (Text.split ',' (String.ofList args)).map Text.trim⟩
  | none => ⟨Text.trim token, []⟩

mutual

/-- Tokens of one field. A value that is neither text nor list stands for its own text. -/
def tokensOf : Json → List String
  | .string s => ((Text.split '|' s).map Text.trim).filter fun t => !t.isEmpty
  | .array items => tokensOfAll items
  | .null => []
  | other => [other.compact]

def tokensOfAll : List Json → List String
  | [] => []
  | item :: items => tokensOf item ++ tokensOfAll items

end

/-- Fields and their tokens, in order: from an object, or from a list of pairs. Anything else in
such a list is skipped. -/
def normalize : Json → List (String × List String)
  | .object members => members.map fun (field, tokens) => (field, tokensOf tokens)
  | .array pairs => pairs.filterMap fun
    | .array [.string field, tokens] => some (field, tokensOf tokens)
    | _ => none
  | _ => []

def note (field : FieldRules) (text : String) : FieldRules :=
  { field with notes := field.notes ++ [text] }

def applyRule (field : FieldRules) (rule : Rule) : FieldRules :=
  match rule.name, rule.args with
  | "required", _ => { field with required := true }
  | "present", _ => { field with required := true }
  | "integer", _ => { field with type := "integer" }
  | "numeric", _ => { field with type := "number" }
  | "boolean", _ => { field with type := "boolean" }
  | "array", _ => { field with array := true }
  | "nullable", _ => note field "Field may be null."
  | "required_if", other :: value :: _ =>
    note field ("Required when " ++ other ++ "=" ++ value ++ ".")
  | "in", args => note field ("One of " ++ String.intercalate ", " args ++ ".")
  | "between", args => note field ("Between " ++ String.intercalate " and " args ++ ".")
  | "unique", _ => note field "Must be unique."
  | "min", least :: _ => note field ("Minimum " ++ least ++ ".")
  | "max", greatest :: _ => note field ("Maximum " ++ greatest ++ ".")
  | _, _ => field

def fieldOf (name : String) (tokens : List String) : FieldRules :=
  (tokens.map Rule.parse).foldl applyRule { name }

def itemsOwner? (name : String) : Option String :=
  (Text.suffix? ['.', '*'] name.toList).map String.ofList

def update (fields : List FieldRules) (name : String) (change : Option FieldRules → FieldRules) :
    List FieldRules :=
  match fields with
  | [] => [change none]
  | field :: rest =>
    if field.name = name then change (some field) :: rest else field :: update rest name change

/-- Adds what one entry says. An entry that comes after another one of its field takes its place,
and keeps what was said about the items. -/
def addEntry (fields : List FieldRules) (entry : String × List String) : List FieldRules :=
  match itemsOwner? entry.1 with
  | some owner =>
    let type := (fieldOf owner entry.2).type
    update fields owner fun present =>
      { present.getD { name := owner } with array := true, itemsType := some type }
  | none =>
    update fields entry.1 fun
      | some present =>
        { fieldOf entry.1 entry.2 with array := true, itemsType := present.itemsType }
      | none => fieldOf entry.1 entry.2

/-- The fields of a rule set, in the order in which they are first mentioned. -/
def interpret (rules : Json) : List FieldRules := (normalize rules).foldl addEntry []

end Rules

def FieldRules.description (field : FieldRules) : String := String.intercalate "<br>" field.notes

end ApiContract
