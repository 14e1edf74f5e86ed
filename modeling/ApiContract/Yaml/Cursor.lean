import ApiContract.Yaml.Character

namespace ApiContract.Yaml

structure Cursor where
  rest : List Char
  /-- How many characters stand before it. -/
  index : Nat := 0
  line : Nat := 0
  column : Nat := 0

namespace Cursor

def head? (c : Cursor) : Option Char := c.rest.head?

def peek? (c : Cursor) (n : Nat) : Option Char := c.rest[n]?

def atEnd (c : Cursor) : Bool := c.rest.isEmpty

def startsWith (c : Cursor) (s : String) : Bool := s.toList.isPrefixOf c.rest

def skip (c : Cursor) (n : Nat) : Cursor := ⟨c.rest.drop n, c.index + n, c.line, c.column + n⟩

def span (c : Cursor) (p : Char → Bool) : List Char × Cursor :=
  let word := c.rest.takeWhile fun x => p x && !isBreak x
  (word, c.skip word.length)

def skipWhile (c : Cursor) (p : Char → Bool) : Cursor := (c.span p).2

def skipLine (c : Cursor) : Cursor := c.skipWhile fun _ => true

/-- A line end, and the place behind it. All but the two separators count as the same one. -/
def lineEnd? (c : Cursor) : Option (Char × Cursor) :=
  match c.rest with
  | '\r' :: '\n' :: rest => some ('\n', ⟨rest, c.index + 2, c.line + 1, 0⟩)
  | x :: rest =>
    if isBreak x then
      some (if x = lineSeparator || x = paragraphSeparator then x else '\n',
        ⟨rest, c.index + 1, c.line + 1, 0⟩)
    else none
  | [] => none

def isMarker (c : Cursor) (mark : String) : Bool :=
  c.column = 0 && c.startsWith mark && isGap (c.peek? 3)

def atMarker (c : Cursor) : Bool := c.isMarker "---" || c.isMarker "..."

/-- Between two parts of a scalar: blanks, or line ends with blanks around them. -/
structure Gap where
  blanks : List Char := []
  breaks : List Char := []

/-- One line end is a blank; of several the first is dropped, unless it is a separator. -/
def Gap.joined (gap : Gap) : List Char :=
  match gap.breaks with
  | [] => gap.blanks
  | ['\n'] => [' ']
  | '\n' :: more => more
  | all => all

/-- Reads over a gap. A tab in a further line must not stand before column `least`. -/
def gap? (least : Nat) (broken : Bool) : Nat → Gap → Cursor → Option (Gap × Cursor)
  | 0, _, _ => none
  | fuel + 1, gap, c =>
    match c.lineEnd? with
    | some (x, next) => gap? least true fuel ⟨[], gap.breaks ++ [x]⟩ next
    | none =>
      match c.head? with
      | some x =>
        if isBlank x then
          if broken then
            if x = '\t' && c.column < least then none else gap? least broken fuel gap (c.skip 1)
          else gap? least broken fuel ⟨gap.blanks ++ [x], []⟩ (c.skip 1)
        else some (gap, c)
      | none => some (gap, c)

def fuel (c : Cursor) : Nat := c.rest.length + 1

end Cursor

end ApiContract.Yaml
