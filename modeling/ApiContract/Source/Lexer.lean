import ApiContract.Source.Token
import ApiContract.Text.Blank

namespace ApiContract.Source.Lexer

def isBlank (c : Char) : Bool := Text.isBlank c || c.toNat = 0x200E || c.toNat = 0x200F

/-- Up to the end of the line; a carriage return before the line feed belongs to neither part. -/
def takeLine (soFar : List Char) : List Char → List Char × List Char
  | [] => (soFar.reverse, [])
  | '\n' :: rest => (soFar.reverse, '\n' :: rest)
  | '\r' :: '\n' :: rest => (soFar.reverse, '\n' :: rest)
  | c :: rest => takeLine (c :: soFar) rest

/-- The text of a comment up to its closing mark; comments nest. -/
def takeComment (depth : Nat) (soFar : List Char) : List Char → Option (List Char × List Char)
  | '/' :: '*' :: rest => takeComment (depth + 1) ('*' :: '/' :: soFar) rest
  | '*' :: '/' :: rest =>
    match depth with
    | 0 => some (soFar.reverse, rest)
    | depth + 1 => takeComment depth ('/' :: '*' :: soFar) rest
  | c :: rest => takeComment depth (c :: soFar) rest
  | [] => none

def skipOne? (s : List Char) : Option (List Char) :=
  match s with
  | '/' :: '/' :: rest =>
    match rest with
    | '!' :: _ => none
    | '/' :: '/' :: _ => some (takeLine [] rest).2
    | '/' :: _ => none
    | _ => some (takeLine [] rest).2
  | '/' :: '*' :: rest =>
    match rest with
    | '*' :: '/' :: rest => some rest
    | '!' :: _ => none
    | '*' :: '*' :: _ => (takeComment 0 [] rest).map Prod.snd
    | '*' :: _ => none
    | _ => (takeComment 0 [] rest).map Prod.snd
  | c :: rest => if isBlank c then some rest else none
  | [] => none

def skip : Nat → List Char → List Char
  | 0, s => s
  | fuel + 1, s =>
    match skipOne? s with
    | some rest => skip fuel rest
    | none => s

def docComment? (s : List Char) : Option (List Char × Bool × List Char) :=
  match s with
  | '/' :: '/' :: '!' :: rest => let (t, r) := takeLine [] rest; some (t, true, r)
  | '/' :: '*' :: '!' :: rest => (takeComment 0 [] rest).map fun (t, r) => (t, true, r)
  | '/' :: '/' :: '/' :: rest =>
    match rest with
    | '/' :: _ => none
    | _ => let (t, r) := takeLine [] rest; some (t, false, r)
  | '/' :: '*' :: '*' :: rest =>
    match rest with
    | '*' :: _ => none
    | '/' :: _ => none
    | _ => (takeComment 0 [] rest).map fun (t, r) => (t, false, r)
  | _ => none

def bareReturn : List Char → Bool
  | '\r' :: '\n' :: rest => bareReturn rest
  | '\r' :: _ => true
  | _ :: rest => bareReturn rest
  | [] => false

def docTokens (text : List Char) (inner : Bool) : List Token :=
  [.punct '#' false] ++ (if inner then [.punct '!' false] else []) ++
    [.group .square [.ident "doc", .punct '=' false, .literal (.string (String.ofList text))]]

def word? : List Char → Option (List Char × List Char)
  | c :: rest =>
    if Text.isIdentifierStart c then
      some (c :: rest.takeWhile Text.isIdentifierPart, rest.dropWhile Text.isIdentifierPart)
    else none
  | [] => none

def dropSuffix (s : List Char) : List Char :=
  match word? s with
  | some (_, rest) => rest
  | none => s

/-- The three kinds of quoted text differ in what may stand in them. -/
inductive Quoting where
  | text | bytes | foreign
deriving DecidableEq

def Quoting.admits (q : Quoting) (c : Char) : Bool :=
  match q with
  | .text => true
  | .bytes => c.toNat < 128
  | .foreign => c.toNat ≠ 0

def hexValue? (c : Char) : Option Nat := Literal.digitValue 16 c

def hexEscape? (q : Quoting) : List Char → Option (Char × List Char)
  | a :: b :: rest =>
    match hexValue? a, hexValue? b with
    | some m, some n =>
      if (q = .text ∧ 8 ≤ m) ∨ (q = .foreign ∧ m = 0 ∧ n = 0) then none
      else some (Char.ofNat (m * 16 + n), rest)
    | _, _ => none
  | _ => none

def codePoint? : List Char → Option (Char × List Char)
  | '{' :: rest => go 0 0 rest
  | _ => none
where
  go (value count : Nat) : List Char → Option (Char × List Char)
    | [] => none
    | c :: rest =>
      match hexValue? c with
      | some d => if count = 6 then none else go (value * 16 + d) (count + 1) rest
      | none =>
        if count = 0 then none
        else if c = '_' then go value count rest
        else if c = '}' then
          if h : value.isValidChar then some (Char.ofNatAux value h, rest) else none
        else none

def escape? (q : Quoting) : List Char → Option (Char × List Char)
  | 'x' :: rest => hexEscape? q rest
  | 'u' :: rest =>
    match q, codePoint? rest with
    | .bytes, _ => none
    | .foreign, some (c, rest) => if c.toNat = 0 then none else some (c, rest)
    | .text, found => found
    | _, none => none
  | '0' :: rest => if q = .foreign then none else some (Char.ofNat 0, rest)
  | 'n' :: rest => some ('\n', rest)
  | 'r' :: rest => some ('\r', rest)
  | 't' :: rest => some ('\t', rest)
  | '\\' :: rest => some ('\\', rest)
  | '\'' :: rest => some ('\'', rest)
  | '"' :: rest => some ('"', rest)
  | _ => none

/-- A quoted text after its opening quote. A backslash at the end of a line joins the line to the
next one, without the blanks at its start. -/
def quoted (q : Quoting) (soFar : List Char) (joining : Bool) :
    Nat → List Char → Option (List Char × List Char)
  | 0, _ => none
  | fuel + 1, s =>
    match s with
    | [] => none
    | '"' :: rest => some (soFar.reverse, rest)
    | '\r' :: '\n' :: rest => quoted q (if joining then soFar else '\n' :: soFar) joining fuel rest
    | '\r' :: _ => none
    | '\\' :: '\n' :: rest => quoted q soFar true fuel rest
    | '\\' :: '\r' :: '\n' :: rest => quoted q soFar true fuel rest
    | '\\' :: rest =>
      match escape? q rest with
      | some (c, rest) => quoted q (c :: soFar) false fuel rest
      | none => none
    | c :: rest =>
      if !q.admits c then none
      else if joining && Text.isBlank c then quoted q soFar true fuel rest
      else quoted q (c :: soFar) false fuel rest

def raw (q : Quoting) (marks soFar : List Char) : List Char → Option (List Char × List Char)
  | [] => none
  | '\r' :: '\n' :: rest => raw q marks ('\n' :: '\r' :: soFar) rest
  | c :: rest =>
    if c = '"' && marks.isPrefixOf rest then some (soFar.reverse, rest.drop marks.length)
    else if c = '\r' || !q.admits c then none
    else raw q marks (c :: soFar) rest

def rawQuoted? (q : Quoting) (s : List Char) : Option (List Char × List Char) :=
  let marks := s.takeWhile (· = '#')
  match s.dropWhile (· = '#') with
  | '"' :: rest => if 255 < marks.length then none else raw q marks [] rest
  | _ => none

def text? (s : List Char) : Option (Literal × List Char) :=
  match s with
  | '"' :: rest =>
    (quoted .text [] false s.length rest).map fun (t, r) =>
      (.string (String.ofList t), dropSuffix r)
  | 'r' :: rest =>
    (rawQuoted? .text rest).map fun (t, r) => (.string (String.ofList t), dropSuffix r)
  | _ => none

def opaqueText? (s : List Char) : Option (Literal × List Char) :=
  let close := fun (found : Option (List Char × List Char)) =>
    found.map fun (_, r) => (Literal.opaqueText, dropSuffix r)
  match s with
  | 'b' :: '"' :: rest => close (quoted .bytes [] false s.length rest)
  | 'b' :: 'r' :: rest => close (rawQuoted? .bytes rest)
  | 'c' :: '"' :: rest => close (quoted .foreign [] false s.length rest)
  | 'c' :: 'r' :: rest => close (rawQuoted? .foreign rest)
  | _ => none

def charBody? (q : Quoting) : List Char → Option (Char × List Char)
  | '\\' :: rest =>
    match escape? q rest with
    | some (c, '\'' :: rest) => some (c, rest)
    | _ => none
  | c :: '\'' :: rest => if q.admits c then some (c, rest) else none
  | _ => none

def char? (s : List Char) : Option (Literal × List Char) :=
  match s with
  | 'b' :: '\'' :: rest => (charBody? .bytes rest).map fun (_, r) => (.opaqueText, dropSuffix r)
  | '\'' :: rest => (charBody? .text rest).map fun (c, r) => (.char c, dropSuffix r)
  | _ => none

def isNumeralPart (c : Char) : Bool := c.isDigit || c = '_'

def exponentLength? (s : List Char) : Option Nat := go 0 false false s
where
  go (count : Nat) (sign digit : Bool) : List Char → Option Nat
    | c :: rest =>
      if c = '+' ∨ c = '-' then
        if digit then some count else if sign then none else go (count + 1) true digit rest
      else if c.isDigit then go (count + 1) sign true rest
      else if c = '_' then go (count + 1) sign digit rest
      else if digit then some count else none
    | [] => if digit then some count else none

/-- Length of a numeral with a point or an exponent. A point does not belong to it where a name or
a second point follows. -/
def fractionLength? (s : List Char) : Option Nat :=
  match s with
  | c :: _ =>
    if !c.isDigit then none
    else
      let whole := (s.takeWhile isNumeralPart).length
      match s.drop whole with
      | '.' :: rest =>
        if (match rest with
            | d :: _ => d = '.' || Text.isIdentifierStart d
            | [] => false) then none
        else
          let part := (rest.takeWhile isNumeralPart).length
          let pointed := whole + 1 + part
          match rest.drop part with
          | e :: rest =>
            if e = 'e' ∨ e = 'E' then
              match exponentLength? rest with
              | some n => some (pointed + 1 + n)
              | none => some pointed
            else some pointed
          | [] => some pointed
      | e :: rest =>
        if e = 'e' ∨ e = 'E' then (exponentLength? rest).map (whole + 1 + ·) else none
      | [] => none
  | [] => none

/-- Length of an integer. A digit that its base does not have is an error; a letter ends it. -/
def integerLength? (s : List Char) : Option Nat :=
  match s with
  | '0' :: 'x' :: rest => go 16 2 true rest
  | '0' :: 'o' :: rest => go 8 2 true rest
  | '0' :: 'b' :: rest => go 2 2 true rest
  | _ => go 10 0 true s
where
  go (base count : Nat) (empty : Bool) : List Char → Option Nat
    | c :: rest =>
      if c = '_' then if empty && base = 10 then none else go base (count + 1) empty rest
      else
        match Literal.digitValue 16 c with
        | some d =>
          if d < base then go base (count + 1) false rest
          else if c.isDigit then none
          else if empty then none
          else some count
        | none => if empty then none else some count
    | [] => if empty then none else some count

def numeralOf? (s : List Char) (length : Nat) : Option (Literal × List Char) :=
  let rest := dropSuffix (s.drop length)
  match rest with
  | c :: _ =>
    if Text.isIdentifierPart c then none
      else some (Literal.ofNumeral (s.take (s.length - rest.length)), rest)
  | [] => some (Literal.ofNumeral s, [])

def numeral? (s : List Char) : Option (Literal × List Char) :=
  ((fractionLength? s).bind (numeralOf? s)).or ((integerLength? s).bind (numeralOf? s))

def literal? (s : List Char) : Option (Literal × List Char) :=
  (((text? s).or (opaqueText? s)).or (char? s)).or (numeral? s)

def operatorChars : List Char := "~!@#$%^&*-=+|;:,<.>/?".toList

def startsOperator : List Char → Bool
  | '/' :: '/' :: _ => false
  | '/' :: '*' :: _ => false
  | c :: _ => c = '\'' || operatorChars.contains c
  | [] => false

/-- An identifier, raw or not. A raw one keeps its mark, and may not be a path root. -/
def anyIdent? (s : List Char) : Option (List Char × List Char) :=
  match s with
  | 'r' :: '#' :: rest =>
    match word? rest with
    | some (name, rest) =>
      if ["_", "super", "self", "Self", "crate"].contains (String.ofList name) then none
      else some ('r' :: '#' :: name, rest)
    | none => none
  | _ => word? s

def lifetime? (s : List Char) : Option (Token × List Char) :=
  match anyIdent? s with
  | some (name, rest) =>
    match rest with
    | '\'' :: _ => none
    | '#' :: _ =>
      if "r#".toList.isPrefixOf s then some (.lifetime (String.ofList name), rest) else none
    | _ => some (.lifetime (String.ofList name), rest)
  | none => none

/-- Starts of literals, which are no identifiers even if the literal is broken. -/
def literalStarts : List String :=
  ["r\"", "r#\"", "r##", "b\"", "b'", "br\"", "br#", "c\"", "cr\"", "cr#"]

def ident? (s : List Char) : Option (Token × List Char) :=
  if literalStarts.any fun start => start.toList.isPrefixOf s then none
  else (anyIdent? s).map fun (name, rest) => (.ident (String.ofList name), rest)

def leaf? (s : List Char) : Option (Token × List Char) :=
  match literal? s with
  | some (l, rest) => some (.literal l, rest)
  | none =>
    match s with
    | '\'' :: rest => lifetime? rest
    | c :: rest =>
      if startsOperator s then some (.punct c (startsOperator rest), rest) else ident? s
    | [] => none

def opening? : Char → Option Bracket
  | '(' => some .round
  | '[' => some .square
  | '{' => some .curly
  | _ => none

def closing? : Char → Option Bracket
  | ')' => some .round
  | ']' => some .square
  | '}' => some .curly
  | _ => none

def brokenMark : List Char := "(/*ERROR*/)".toList

/-- Reads on with the groups that are still open, innermost first; each with the tokens before it,
last first. -/
def read (open_ : List (Bracket × List Token)) (soFar : List Token) :
    Nat → List Char → Option (List Token)
  | 0, _ => none
  | fuel + 1, text =>
    let s := skip text.length text
    match docComment? s with
    | some (doc, inner, rest) =>
      if bareReturn doc then none else read open_ ((docTokens doc inner).reverse ++ soFar) fuel rest
    | none =>
      match s with
      | [] => if open_.isEmpty then some soFar.reverse else none
      | c :: rest =>
        if brokenMark.isPrefixOf s then
          read open_ (.literal .opaqueText :: soFar) fuel (s.drop brokenMark.length)
        else
          match opening? c, closing? c with
          | some bracket, _ => read ((bracket, soFar) :: open_) [] fuel rest
          | none, some bracket =>
            match open_ with
            | (opened, before) :: outer =>
              if opened = bracket then read outer (.group bracket soFar.reverse :: before) fuel rest
              else none
            | [] => none
          | none, none =>
            match leaf? s with
            | some (token, rest) => read open_ (token :: soFar) fuel rest
            | none => none

def tokens? (text : List Char) : Option (List Token) := read [] [] (text.length + 1) text

end ApiContract.Source.Lexer
