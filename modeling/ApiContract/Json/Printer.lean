import ApiContract.Json.Basic
import ApiContract.Decimal.Shortest

namespace ApiContract.Json

namespace Printer

def hexChar (n : Nat) : Char :=
  if n < 10 then Char.ofNat ('0'.toNat + n) else Char.ofNat ('a'.toNat + n - 10)

def escaped (c : Char) : List Char :=
  match c with
  | '"' => ['\\', '"']
  | '\\' => ['\\', '\\']
  | '\x08' => ['\\', 'b']
  | '\x0c' => ['\\', 'f']
  | '\n' => ['\\', 'n']
  | '\r' => ['\\', 'r']
  | '\t' => ['\\', 't']
  | c =>
    if c.toNat < 0x20 then ['\\', 'u', '0', '0', hexChar (c.toNat / 16), hexChar (c.toNat % 16)]
    else [c]

def quote (s : String) : String := String.ofList ('"' :: s.toList.flatMap escaped ++ ['"'])

def number : Number → String
  | .int n => if n < 0 then "-" ++ Nat.repr n.natAbs else Nat.repr n.natAbs
  | .float x => Decimal.ofFloat .signed x

end Printer

open Printer

mutual

def compact : Json → String
  | null => "null"
  | bool b => if b then "true" else "false"
  | .number n => Printer.number n
  | string s => quote s
  | array items => "[" ++ compactItems items ++ "]"
  | object members => "\x7b" ++ compactMembers members ++ "\x7d"

def compactItems : List Json → String
  | [] => ""
  | [x] => compact x
  | x :: y :: rest => compact x ++ "," ++ compactItems (y :: rest)

def compactMembers : List (String × Json) → String
  | [] => ""
  | [(name, x)] => quote name ++ ":" ++ compact x
  | (name, x) :: y :: rest => quote name ++ ":" ++ compact x ++ "," ++ compactMembers (y :: rest)

end

def newline (level : Nat) : String := "\n" ++ String.ofList (List.replicate (2 * level) ' ')

mutual

def indentedFrom (level : Nat) : Json → String
  | null => "null"
  | bool b => if b then "true" else "false"
  | .number n => Printer.number n
  | string s => quote s
  | array [] => "[]"
  | array (x :: items) => "[" ++ indentedItems (level + 1) (x :: items) ++ newline level ++ "]"
  | object [] => "\x7b\x7d"
  | object (m :: members) =>
    "\x7b" ++ indentedMembers (level + 1) (m :: members) ++ newline level ++ "\x7d"

def indentedItems (level : Nat) : List Json → String
  | [] => ""
  | [x] => newline level ++ indentedFrom level x
  | x :: y :: rest =>
    newline level ++ indentedFrom level x ++ "," ++ indentedItems level (y :: rest)

def indentedMembers (level : Nat) : List (String × Json) → String
  | [] => ""
  | [(name, x)] => newline level ++ quote name ++ ": " ++ indentedFrom level x
  | (name, x) :: y :: rest =>
    newline level ++ quote name ++ ": " ++ indentedFrom level x ++ "," ++
      indentedMembers level (y :: rest)

end

/-- Two blanks a level; empty arrays and objects stay on their line. -/
def indented (v : Json) : String := indentedFrom 0 v

end ApiContract.Json
