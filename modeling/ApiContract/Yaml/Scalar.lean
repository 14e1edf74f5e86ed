import ApiContract.Yaml.Character
import ApiContract.Yaml.Plain

namespace ApiContract.Yaml

inductive Style where
  | plain
  | single
  | double
  /-- A block that keeps its lines. -/
  | literal
  /-- A block that joins its lines. -/
  | folded
deriving DecidableEq, Repr

namespace Style

/-- Whether a character that satisfies `p` is followed by one that satisfies `q`. -/
def hasPair (p q : Char → Bool) : List Char → Bool
  | a :: b :: rest => (p a && q b) || hasPair p q (b :: rest)
  | _ => false

def isSpace (c : Char) : Bool := c = ' '

def opening : List Char := "#,[]\x7b\x7d&*!|>'\"%@`".toList

def opensStructure : List Char → Bool
  | [] => false
  | c :: rest =>
    opening.contains c || (['?', ':', '-'].contains c && isGap rest.head?) ||
      "---".toList.isPrefixOf (c :: rest) || "...".toList.isPrefixOf (c :: rest)

def holdsStructure : List Char → Bool
  | a :: b :: rest =>
    (b = ':' && isGap rest.head?) || (b = '#' && isGap (some a)) || holdsStructure (b :: rest)
  | _ => false

def special (s : List Char) : Bool := !s.all isPrintable || hasPair isSpace isBreak s

def edge (s : List Char) : Bool :=
  let atEnd (c : Option Char) : Bool := c.any fun c => isSpace c || isBreak c
  atEnd s.head? || atEnd s.getLast?

def admitsPlain (s : List Char) : Bool :=
  !(edge s || s.any isBreak || special s || opensStructure s || holdsStructure s)

def admitsSingle (s : List Char) : Bool := !(special s || hasPair isBreak isSpace s)

def admitsLiteral (s : List Char) : Bool := !(special s || s.getLast?.any isSpace)

def ofText (s : String) : Style :=
  let cs := s.toList
  if cs.contains '\n' then if admitsLiteral cs then literal else double
  else if Plain.isItself s && admitsPlain cs then plain
  else if admitsSingle cs then single
  else double

end Style

namespace Scalar

def pad (n : Nat) : List Char := List.replicate n ' '

/-- Text of which every line but the first starts at a column. -/
def aligned (n : Nat) (atStart : Bool) : List Char → List Char
  | [] => []
  | c :: rest =>
    if isBreak c then c :: aligned n true rest
    else (if atStart then pad n else []) ++ c :: aligned n false rest

def endsLine (s : List Char) : Bool := s.getLast?.any isBreak

def single (n : Nat) (s : List Char) : List Char :=
  let doubled := s.flatMap fun c => if c = '\'' then ['\'', '\''] else [c]
  '\'' :: aligned n false doubled ++ (if endsLine s then pad n else []) ++ ['\'']

def hexDigits (width n : Nat) : List Char :=
  let digits := (Nat.toDigits 16 n).map Char.toUpper
  List.replicate (width - digits.length) '0' ++ digits

def shortEscapes : List (Char × Char) :=
  [('\x00', '0'), ('\x07', 'a'), ('\x08', 'b'), ('\t', 't'), ('\n', 'n'), ('\x0b', 'v'),
    ('\x0c', 'f'), ('\r', 'r'), ('\x1b', 'e'), ('"', '"'), ('\\', '\\'), (nextLine, 'N'),
    (lineSeparator, 'L'), (paragraphSeparator, 'P')]

def escaped (c : Char) : List Char :=
  match List.lookup c shortEscapes with
  | some e => ['\\', e]
  | none =>
    if isPrintable c then [c]
    else if c.toNat ≤ 0xFF then ['\\', 'x'] ++ hexDigits 2 c.toNat
    else if c.toNat ≤ 0xFFFF then ['\\', 'u'] ++ hexDigits 4 c.toNat
    else ['\\', 'U'] ++ hexDigits 8 c.toNat

def double (s : List Char) : List Char := '"' :: s.flatMap escaped ++ ['"']

/-- Says whether the lines start with blanks of their own, and what becomes of the last line end. -/
def blockHeader (s : List Char) : List Char :=
  let indentation := if s.head?.any fun c => c = ' ' || isBreak c then ['2'] else []
  let ending := match s.reverse with
    | [] => ['-']
    | [c] => if isBreak c then ['+'] else ['-']
    | c :: b :: _ => if !isBreak c then ['-'] else if isBreak b then ['+'] else []
  '|' :: indentation ++ ending

def literal (n : Nat) (s : List Char) : List Char := blockHeader s ++ '\n' :: aligned n true s

def write (n : Nat) (s : String) : List Char :=
  match Style.ofText s with
  | .plain => s.toList
  | .single => single n s.toList
  | .double => double s.toList
  | .literal | .folded => literal n s.toList

end Scalar

end ApiContract.Yaml
