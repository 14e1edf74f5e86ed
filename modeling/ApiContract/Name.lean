import ApiContract.Text.Pieces

namespace ApiContract.Name

def segments (name : String) : List String :=
  ((Text.cutPath name.toList).filter fun piece => !piece.isEmpty).map String.ofList

def join (segments : List String) : String := String.intercalate "::" segments

def short (name : String) : String :=
  match Text.splitLastPath? name.toList with
  | some (_, last) => String.ofList last
  | none => name

def isQualified (name : String) : Bool := (Text.splitLastPath? name.toList).isSome

/-- The entry under the name itself, or else the only entry with its short name. -/
def lookup? {α : Type} (entries : List (String × α)) (name : String) : Option α :=
  match List.lookup name entries with
  | some value => some value
  | none =>
    match entries.filter (fun entry => short entry.1 == short name) with
    | [(_, value)] => some value
    | _ => none

def natives : List String :=
  ["bool", "char", "str", "String", "i8", "i16", "i32", "i64", "i128", "isize", "u8", "u16", "u32",
    "u64", "u128", "usize", "f32", "f64"]

def isNative (name : String) : Bool := natives.contains name

/-- Names that denote the same thing in every module. -/
def isPrelude (name : String) : Bool :=
  isNative name ||
    ["Vec", "Option", "Result", "Box", "Some", "None", "Ok", "Err", "Default", "Self"].contains name

end ApiContract.Name
