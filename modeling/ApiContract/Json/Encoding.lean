import ApiContract.Json.Basic
import ApiContract.Table

namespace ApiContract.Json

def ofOption {α : Type} (encode : α → Json) : Option α → Json
  | some x => encode x
  | none => null

def ofList {α : Type} (encode : α → Json) (items : List α) : Json := array (items.map encode)

def ofTexts (items : List String) : Json := ofList string items

def ofTable {α : Type} (encode : α → Json) (table : Table α) : Json :=
  object (table.map fun entry => (entry.1, encode entry.2))

end ApiContract.Json
