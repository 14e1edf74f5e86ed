import ApiContract.Json.Basic
import ApiContract.Decimal.Scale

namespace ApiContract.Json

namespace Reader

def isBlank (c : Char) : Bool := c = ' ' || c = '\t' || c = '\n' || c = '\r'

def skipBlank (s : List Char) : List Char := s.dropWhile isBlank

def hexDigit? (c : Char) : Option Nat :=
  if '0' ≤ c ∧ c ≤ '9' then some (c.toNat - '0'.toNat)
  else if 'a' ≤ c ∧ c ≤ 'f' then some (c.toNat - 'a'.toNat + 10)
  else if 'A' ≤ c ∧ c ≤ 'F' then some (c.toNat - 'A'.toNat + 10)
  else none

def unit? : List Char → Option (Nat × List Char)
  | a :: b :: c :: d :: rest => do
    let a ← hexDigit? a
    let b ← hexDigit? b
    let c ← hexDigit? c
    let d ← hexDigit? d
    return (((a * 16 + b) * 16 + c) * 16 + d, rest)
  | _ => none

/-- The character behind an escape of four digits; one beyond the basic plane takes two escapes. -/
def codePoint? (s : List Char) : Option (Char × List Char) := do
  let (high, rest) ← unit? s
  if 0xD800 ≤ high ∧ high ≤ 0xDBFF then
    match rest with
    | '\\' :: 'u' :: rest =>
      let (low, rest) ← unit? rest
      if 0xDC00 ≤ low ∧ low ≤ 0xDFFF then
        return (Char.ofNat (0x10000 + (high - 0xD800) * 0x400 + (low - 0xDC00)), rest)
      else none
    | _ => none
  else if 0xDC00 ≤ high ∧ high ≤ 0xDFFF then none
  else return (Char.ofNat high, rest)

def quoted (soFar : List Char) : Nat → List Char → Option (String × List Char)
  | 0, _ => none
  | fuel + 1, s =>
    match s with
    | [] => none
    | '"' :: rest => some (String.ofList soFar.reverse, rest)
    | '\\' :: 'u' :: rest => do
      let (c, rest) ← codePoint? rest
      quoted (c :: soFar) fuel rest
    | '\\' :: c :: rest => do
      let c ← List.lookup c [('"', '"'), ('\\', '\\'), ('/', '/'), ('b', '\x08'), ('f', '\x0c'),
          ('n', '\n'), ('r', '\r'), ('t', '\t')]
      quoted (c :: soFar) fuel rest
    | c :: rest => if c.toNat < 0x20 ∨ c = '\\' then none else quoted (c :: soFar) fuel rest

def digitValue (c : Char) : Nat := c.toNat - '0'.toNat

def natOf (digits : List Char) : Nat := digits.foldl (fun n c => n * 10 + digitValue c) 0

def digits (s : List Char) : List Char × List Char :=
  (s.takeWhile Char.isDigit, s.dropWhile Char.isDigit)

def exponent? : List Char → Option (Option Int × List Char)
  | c :: rest =>
    if c = 'e' ∨ c = 'E' then
      let (sign, rest) : Int × List Char :=
        match rest with
        | '+' :: rest => (1, rest)
        | '-' :: rest => (-1, rest)
        | rest => (1, rest)
      match digits rest with
      | ([], _) => none
      | (ds, rest) => some (some (sign * natOf ds), rest)
    else some (none, c :: rest)
  | [] => some (none, [])

/-- As many leading digits as fit the unsigned range, and how many are left over. -/
def significand (n : Nat) : List Char → Nat × Nat
  | [] => (n, 0)
  | c :: rest =>
    if n * 10 + digitValue c < Nat.pow 2 64 then significand (n * 10 + digitValue c) rest
    else (n, rest.length + 1)

def signed (negative : Bool) (x : Float) : Float := if negative then -x else x

def fraction? (negative : Bool) (whole part : List Char) (exponent : Int) : Option Float := do
  let (n, left) := significand 0 whole
  let (n, dropped) := significand n part
  let kept : Nat := part.length - dropped
  let x ← Decimal.scale n (left - kept + exponent)
  return signed negative x

def integer (negative : Bool) (n : Nat) : Number :=
  if negative then
    if n = 0 ∨ Nat.pow 2 63 < n then .float (-(Float.ofNat n)) else .int (-(n : Int))
  else .int n

/-- A number after its sign. No digit may follow a leading zero. -/
def number? (negative : Bool) (s : List Char) : Option (Number × List Char) := do
  let (whole, rest) := digits s
  match whole with
  | [] => none
  | '0' :: _ :: _ => none
  | _ =>
    match rest with
    | '.' :: rest =>
      let (part, rest) := digits rest
      if part.isEmpty then none else
      let (e, rest) ← exponent? rest
      let x ← fraction? negative whole part (e.getD 0)
      return (.float x, rest)
    | _ =>
      let (e, rest) ← exponent? rest
      if e.isSome ∨ Nat.pow 2 64 ≤ natOf whole then
        let x ← fraction? negative whole [] (e.getD 0)
        return (.float x, rest)
      else return (integer negative (natOf whole), rest)

def word? (word : List Char) (value : Json) (s : List Char) : Option (Json × List Char) :=
  if word.isPrefixOf s then some (value, s.drop word.length) else none

mutual

def value (depth : Nat) : Nat → List Char → Option (Json × List Char)
  | 0, _ => none
  | fuel + 1, s =>
    match skipBlank s with
    | '"' :: rest => (quoted [] (rest.length + 1) rest).map fun (t, r) => (.string t, r)
    | '[' :: rest =>
      match depth with
      | 0 => none
      | depth + 1 =>
        match skipBlank rest with
        | ']' :: rest => some (.array [], rest)
        | rest => (items depth [] fuel rest).map fun (xs, r) => (.array xs, r)
    | '{' :: rest =>
      match depth with
      | 0 => none
      | depth + 1 =>
        match skipBlank rest with
        | '}' :: rest => some (.object [], rest)
        | rest => (members depth [] fuel rest).map fun (xs, r) => (.object xs, r)
    | '-' :: rest => (number? true rest).map fun (n, r) => (.number n, r)
    | 'n' :: rest => word? "ull".toList .null rest
    | 't' :: rest => word? "rue".toList (.bool true) rest
    | 'f' :: rest => word? "alse".toList (.bool false) rest
    | rest => (number? false rest).map fun (n, r) => (.number n, r)

def items (depth : Nat) (soFar : List Json) : Nat → List Char → Option (List Json × List Char)
  | 0, _ => none
  | fuel + 1, s =>
    match value depth fuel s with
    | none => none
    | some (x, rest) =>
      match skipBlank rest with
      | ']' :: rest => some ((x :: soFar).reverse, rest)
      | ',' :: rest => items depth (x :: soFar) fuel rest
      | _ => none

def members (depth : Nat) (soFar : List (String × Json)) :
    Nat → List Char → Option (List (String × Json) × List Char)
  | 0, _ => none
  | fuel + 1, s =>
    match skipBlank s with
    | '"' :: rest =>
      match quoted [] (rest.length + 1) rest with
      | none => none
      | some (name, rest) =>
        match skipBlank rest with
        | ':' :: rest =>
          match value depth fuel rest with
          | none => none
          | some (x, rest) =>
            match skipBlank rest with
            | '}' :: rest => some (((name, x) :: soFar).reverse, rest)
            | ',' :: rest => members depth ((name, x) :: soFar) fuel rest
            | _ => none
        | _ => none
    | _ => none

end

def depthLimit : Nat := 127

end Reader

def readWritten? (text : String) : Option Json :=
  let s := text.toList
  match Reader.value Reader.depthLimit (s.length + 1) s with
  | some (v, rest) => if (Reader.skipBlank rest).isEmpty then some v else none
  | none => none

/-- The value a text denotes, with every name once in each object. -/
def read? (text : String) : Option Json := (readWritten? text).map settle

end ApiContract.Json
