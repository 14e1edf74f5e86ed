import ApiContract.Decimal.Shortest
import ApiContract.Yaml.Scalar

namespace ApiContract.Yaml

namespace Printer

open Scalar

def number : Number → String
  | .int n => if n < 0 then "-" ++ Nat.repr n.natAbs else Nat.repr n.natAbs
  | .float x => Decimal.ofFloat .bare x

def closed (s : List Char) : List Char := if endsLine s then s else s ++ ['\n']

def isSimpleName (name : String) : Bool := name.utf8ByteSize ≤ 128 && !name.toList.any isBreak

/-- What stands between a name and its value, from the colon on, and the column that the value
starts at: a list or an object with parts starts on a line of its own. -/
def afterName (n : Nat) : Json → List Char × Nat
  | .array (_ :: _) => (':' :: '\n' :: pad n, n)
  | .object (_ :: _) => (':' :: '\n' :: pad (n + 2), n + 2)
  | _ => ([':', ' '], n + 2)

/-- A name and all that stands in front of its value, and the column that the value starts at. -/
def opening (n : Nat) (name : String) (value : Json) : List Char × Nat :=
  if isSimpleName name then
    let (gap, column) := afterName n value
    (write (n + 2) name ++ gap, column)
  else ('?' :: ' ' :: closed (write (n + 2) name) ++ pad n ++ [':', ' '], n + 2)

mutual

def node (n : Nat) : Json → List Char
  | .null => "null\n".toList
  | .bool b => (if b then "true\n" else "false\n").toList
  | .number x => closed (number x).toList
  | .string s => closed (write n s)
  | .array items => if items.isEmpty then "[]\n".toList else itemsFrom n items
  | .object members => if members.isEmpty then "\x7b\x7d\n".toList else membersFrom n members

def itemsFrom (n : Nat) : List Json → List Char
  | [] => []
  | item :: items =>
    '-' :: ' ' :: node (n + 2) item ++ (if items.isEmpty then [] else pad n ++ itemsFrom n items)

def membersFrom (n : Nat) : List (String × Json) → List Char
  | [] => []
  | (name, value) :: members =>
    let (start, column) := opening n name value
    start ++ node column value ++ (if members.isEmpty then [] else pad n ++ membersFrom n members)

end

end Printer

def print (value : Json) : String := String.ofList (Printer.node 0 value)

end ApiContract.Yaml
