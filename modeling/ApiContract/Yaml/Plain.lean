import ApiContract.Decimal.Nearest
import ApiContract.Json.Basic

namespace ApiContract.Yaml

inductive Plain where
  | null
  | bool (value : Bool)
  | number (value : Number)
  /-- An integer beyond the 64-bit ranges. -/
  | oversized
  /-- An infinite number, or none at all. -/
  | unbounded
  | text
deriving Inhabited

namespace Plain

def nullWords : List String := ["", "~", "null", "Null", "NULL"]

def truthOf? (s : String) : Option Bool :=
  if ["true", "True", "TRUE"].contains s then some true
  else if ["false", "False", "FALSE"].contains s then some false
  else none

def unsigned (s : List Char) : List Char :=
  match s with
  | '-' :: rest => rest
  | '+' :: rest => rest
  | rest => rest

/-- Digits behind a leading zero are no number. -/
def isPadded (s : List Char) : Bool :=
  match unsigned s with
  | '0' :: c :: rest => (c :: rest).all Char.isDigit
  | _ => false

def digitValue? (base : Nat) (c : Char) : Option Nat :=
  let value :=
    if c.isDigit then some (c.toNat - '0'.toNat)
    else if 'a' ≤ c ∧ c ≤ 'z' then some (c.toNat - 'a'.toNat + 10)
    else if 'A' ≤ c ∧ c ≤ 'Z' then some (c.toNat - 'A'.toNat + 10)
    else none
  value.filter (· < base)

def natural? (base : Nat) (s : List Char) : Option Nat :=
  if s.isEmpty then none
  else s.foldlM (fun n c => (digitValue? base c).map fun d => n * base + d) 0

def magnitude? (s : List Char) : Option Nat :=
  match s with
  | '0' :: 'x' :: rest => natural? 16 rest
  | '0' :: 'o' :: rest => natural? 8 rest
  | '0' :: 'b' :: rest => natural? 2 rest
  | s => if isPadded s then none else natural? 10 s

def integer? (s : List Char) : Option Int :=
  match s with
  | '-' :: rest => (magnitude? rest).map fun n => -(n : Int)
  | '+' :: rest => (magnitude? rest).map Int.ofNat
  | rest => (magnitude? rest).map Int.ofNat

def fraction? (s : List Char) : Option Float :=
  let (negative, s) := match s with
    | '-' :: rest => (true, rest)
    | '+' :: rest => (false, rest)
    | rest => (false, rest)
  let whole := s.takeWhile Char.isDigit
  let (part, rest) := match s.dropWhile Char.isDigit with
    | '.' :: rest => (rest.takeWhile Char.isDigit, rest.dropWhile Char.isDigit)
    | rest => ([], rest)
  if whole.isEmpty && part.isEmpty then none
  else do
    let exponent ← match rest with
      | [] => some 0
      | c :: rest =>
        if c = 'e' ∨ c = 'E' then
          match rest with
          | '-' :: digits => (natural? 10 digits).map fun n => -(n : Int)
          | '+' :: digits => (natural? 10 digits).map Int.ofNat
          | digits => (natural? 10 digits).map Int.ofNat
        else none
    let digits ← natural? 10 (whole ++ part)
    let x ← Decimal.nearest? digits (exponent - part.length)
    return if negative then -x else x

/-- A plus sign may stand in front of a number, but not in front of another sign. -/
def withoutPlus : List Char → Option (List Char)
  | '+' :: rest =>
    match rest with
    | '+' :: _ => none
    | '-' :: _ => none
    | _ => some rest
  | s => some s

def unboundedWords : List String :=
  [".inf", ".Inf", ".INF", "+.inf", "+.Inf", "+.INF", "-.inf", "-.Inf", "-.INF", ".nan",
    ".NaN", ".NAN"]

/-- Integers that are recognised as such even where no number holds them. -/
def wide (n : Int) : Bool := -(Int.pow 2 127) ≤ n && n < Int.pow 2 128

def ofFraction (s : List Char) : Plain :=
  if isPadded s then text
  else
    match (withoutPlus s).bind fraction? with
    | some x => number (.float x)
    | none => text

def read (s : String) : Plain :=
  if nullWords.contains s then null
  else
    match truthOf? s with
    | some b => bool b
    | none =>
      if unboundedWords.contains s then unbounded
      else
        match integer? s.toList with
        | some n =>
          if Number.representable n then number (.int n)
            else if wide n then oversized else ofFraction s.toList
        | none => ofFraction s.toList

def isItself (s : String) : Bool :=
  match read s with
  | text => !isPadded s.toList
  | _ => false

end Plain

end ApiContract.Yaml
