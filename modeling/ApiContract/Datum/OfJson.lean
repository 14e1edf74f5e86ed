import ApiContract.Datum.Basic

namespace ApiContract.Datum

def ofText (s : String) : Datum := scalar { text := some s, value := some (.string s) }

mutual

def ofJson : Json → Datum
  | .null => scalar { value := some .null, missing := true }
  | .bool b => scalar { truth := some b, value := some (.bool b) }
  | .number n => scalar { value := some (.number n) }
  | .string s => ofText s
  | .array items => list true (ofItems items)
  | .object members => map (ofMembers members)

def ofItems : List Json → List Datum
  | [] => []
  | item :: items => ofJson item :: ofItems items

def ofMembers : List (String × Json) → List (Datum × Datum)
  | [] => []
  | (name, value) :: members => (ofText name, ofJson value) :: ofMembers members

end

end ApiContract.Datum
