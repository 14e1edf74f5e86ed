import ApiContract.Decimal.Scale
import ApiContract.Text.Identifier

namespace ApiContract.Source

/-- What a literal denotes, as far as values of handlers can depend on it. A number keeps its
suffix; a fraction keeps its decimal and its text. -/
inductive Literal where
  | string (value : String)
  | char (value : Char)
  | bool (value : Bool)
  | integer (value : Nat) (suffix : String)
  | fraction (digits : Nat) (exponent : Int) (text : String)
  /-- Bytes, byte strings and foreign strings, which have no value in the data format. -/
  | opaqueText
deriving DecidableEq, Repr, Inhabited

inductive Bracket where
  | round | square | curly
deriving DecidableEq, Repr, Inhabited

inductive Token where
  | ident (name : String)
  | lifetime (name : String)
  /-- One character of an operator; `joint` if another one follows without a gap. -/
  | punct (char : Char) (joint : Bool)
  | literal (value : Literal)
  | group (bracket : Bracket) (tokens : List Token)
deriving Repr, Inhabited

mutual

def Token.weight : Token → Nat
  | .group _ tokens => Token.weightAll tokens + 1
  | _ => 1

def Token.weightAll : List Token → Nat
  | [] => 0
  | t :: rest => t.weight + Token.weightAll rest

end

namespace Literal

/-- How a digit of a number counts. A letter counts where the base has more than ten digits. -/
def digitValue (base : Nat) (c : Char) : Option Nat :=
  let n :=
    if c.isDigit then some (c.toNat - '0'.toNat)
    else if base ≤ 10 then none
    else if 'a' ≤ c ∧ c ≤ 'f' then some (c.toNat - 'a'.toNat + 10)
    else if 'A' ≤ c ∧ c ≤ 'F' then some (c.toNat - 'A'.toNat + 10)
    else none
  n

/-- Whether the part behind a decimal integer makes it a fraction: a point, or an exponent. -/
def continuesAsFraction : List Char → Bool
  | '.' :: _ => true
  | c :: rest =>
    if c = 'e' ∨ c = 'E' then
      match rest.dropWhile fun d => d.isDigit || d = '_' with
      | '+' :: _ | '-' :: _ => true
      | tail =>
        (rest.takeWhile fun d => d.isDigit || d = '_').any Char.isDigit &&
          (tail.isEmpty || Text.isIdentifier tail)
    else false
  | [] => false

def digitsFrom (base value : Nat) (seen : Bool) : List Char → Nat × Bool × List Char
  | [] => (value, seen, [])
  | '_' :: rest => digitsFrom base value seen rest
  | c :: rest =>
    match digitValue base c with
    | some d => digitsFrom base (value * base + d) true rest
    | none => (value, seen, c :: rest)

def integer? (text : List Char) : Option Literal :=
  let (base, digits) : Nat × List Char :=
    match text with
    | '0' :: 'x' :: rest => (16, rest)
    | '0' :: 'o' :: rest => (8, rest)
    | '0' :: 'b' :: rest => (2, rest)
    | _ => (10, text)
  let (value, seen, rest) := digitsFrom base 0 false digits
  if !seen || (base = 10 && continuesAsFraction rest) then none
  else if rest.isEmpty || Text.isIdentifier rest then some (.integer value (String.ofList rest))
  else none

def fraction? (text : List Char) : Option Literal :=
  let isPart := fun (c : Char) => c.isDigit || c = '_'
  let digitsOf := fun (cs : List Char) => cs.filter Char.isDigit
  let whole := text.takeWhile isPart
  let rest := text.dropWhile isPart
  let (part, rest) : List Char × List Char :=
    match rest with
    | '.' :: rest => (rest.takeWhile isPart, rest.dropWhile isPart)
    | rest => ([], rest)
  let exponent : Int × List Char :=
    match rest with
    | c :: tail =>
      if c = 'e' ∨ c = 'E' then
        let tail' := tail.dropWhile (· = '_')
        let (sign, digits) : Int × List Char :=
          match tail' with
          | '-' :: r => (-1, r)
          | '+' :: r => (1, r)
          | r => (1, r)
        let power := digitsOf (digits.takeWhile isPart)
        if power.isEmpty then (0, rest) else (sign * natOf power, digits.dropWhile isPart)
      else (0, rest)
    | [] => (0, [])
  let digits := natOf (digitsOf whole ++ digitsOf part)
  some (.fraction digits (exponent.1 - (digitsOf part).length) (String.ofList text))
where
  natOf (cs : List Char) : Nat := cs.foldl (fun n c => n * 10 + (c.toNat - '0'.toNat)) 0

def ofNumeral (text : List Char) : Literal := ((integer? text).or (fraction? text)).getD .opaqueText

end Literal

end ApiContract.Source
