import ApiContract.Yaml.Cursor

namespace ApiContract.Yaml.Lexeme

open Cursor

def plainWord? (flow : Bool) : Nat → List Char → Cursor → Option (List Char × Cursor)
  | 0, _, _ => none
  | fuel + 1, soFar, c =>
    match c.head? with
    | none => some (soFar.reverse, c)
    | some x =>
      let next := c.peek? 1
      if isGap (some x) then some (soFar.reverse, c)
      else if flow && x = ':' && next.any (fun y => isFlowIndicator y || y = '?') then none
      else if (x = ':' && isGap next) || (flow && isFlowIndicator x) then some (soFar.reverse, c)
      else plainWord? flow fuel (x :: soFar) (c.skip 1)

/-- Text of a scalar, whether a line end follows it, and the cursor behind it. Further lines of it
start at column `least` or behind it. -/
def plainFrom? (flow : Bool) (least : Nat) :
    Nat → List Char → Gap → Cursor → Option (List Char × Bool × Cursor)
  | 0, _, _, _ => none
  | fuel + 1, text, gap, c => do
    let broken := !gap.breaks.isEmpty
    if c.atMarker || c.head? = some '#' then return (text, broken, c)
    let (word, c) ← plainWord? flow c.fuel [] c
    if word.isEmpty then return (text, broken, c)
    let text := text ++ gap.joined ++ word
    if c.atEnd || !isGap c.head? then return (text, false, c)
    let (gap, c) ← gap? least false c.fuel {} c
    if !flow && c.column < least then return (text, !gap.breaks.isEmpty, c)
    plainFrom? flow least fuel text gap c

def plain? (flow : Bool) (least : Nat) (c : Cursor) : Option (List Char × Bool × Cursor) :=
  plainFrom? flow least c.fuel [] {} c

def shortEscapes : List (Char × Char) :=
  [('0', '\x00'), ('a', '\x07'), ('b', '\x08'), ('t', '\t'), ('\t', '\t'), ('n', '\n'),
    ('v', '\x0b'), ('f', '\x0c'), ('r', '\r'), ('e', '\x1b'), (' ', ' '), ('"', '"'), ('/', '/'),
    ('\\', '\\'), ('N', nextLine), ('_', Char.ofNat 0xA0), ('L', lineSeparator),
    ('P', paragraphSeparator)]

def digitCount? : Char → Option Nat
  | 'x' => some 2
  | 'u' => some 4
  | 'U' => some 8
  | _ => none

def codePoint? (digits : List Char) : Option Char := do
  let values ← digits.mapM hexValue?
  let n := values.foldl (fun n d => 16 * n + d) 0
  if n.isValidChar then some (Char.ofNat n) else none

/-- The character behind an escape, and how many characters the escape takes after its backslash. -/
def escape? : List Char → Option (Char × Nat)
  | [] => none
  | c :: rest =>
    match digitCount? c with
    | some n => if rest.length < n then none else (codePoint? (rest.take n)).map fun x => (x, n + 1)
    | none => (List.lookup c shortEscapes).map fun x => (x, 1)

def quotedWord? (quote : Char) : Nat → List Char → Cursor → Option (List Char × Bool × Cursor)
  | 0, _, _ => none
  | fuel + 1, soFar, c =>
    match c.rest with
    | [] => some (soFar.reverse, false, c)
    | x :: rest =>
      if isGap (some x) then some (soFar.reverse, false, c)
      else if x = quote then
        if quote = '\'' && rest.head? = some '\'' then
          quotedWord? quote fuel ('\'' :: soFar) (c.skip 2)
        else some (soFar.reverse, false, c)
      else if quote = '"' && x = '\\' then
        match (c.skip 1).lineEnd? with
        | some (_, next) => some (soFar.reverse, true, next)
        | none => do
          let (y, n) ← escape? rest
          quotedWord? quote fuel (y :: soFar) (c.skip (n + 1))
      else quotedWord? quote fuel (x :: soFar) (c.skip 1)

def quotedFrom? (quote : Char) : Nat → List Char → Cursor → Option (List Char × Cursor)
  | 0, _, _ => none
  | fuel + 1, text, c => do
    if c.atMarker || c.atEnd then none
    let (word, joined, c) ← quotedWord? quote c.fuel [] c
    let text := text ++ word
    if c.head? = some quote then return (text, c.skip 1)
    let (gap, c) ← gap? 0 joined c.fuel {} c
    quotedFrom? quote fuel (text ++ if joined then gap.breaks else gap.joined) c

def quoted? (quote : Char) (c : Cursor) : Option (List Char × Cursor) :=
  quotedFrom? quote c.fuel [] (c.skip 1)

inductive Ending where
  | strip | clip | keep
deriving DecidableEq

def ending? : Option Char → Option Ending
  | some '-' => some .strip
  | some '+' => some .keep
  | _ => none

def indentation? : Option Char → Option Nat
  | some c => if c.isDigit then some (c.toNat - '0'.toNat) else none
  | none => none

def blockHeader? (c : Cursor) : Option (Ending × Nat × Cursor) := do
  let (ending, indentation, c) :=
    match ending? c.head? with
    | some ending =>
      match indentation? (c.peek? 1) with
      | some n => (ending, some n, c.skip 2)
      | none => (ending, none, c.skip 1)
    | none =>
      match indentation? c.head? with
      | some n =>
        match ending? (c.peek? 1) with
        | some ending => (ending, some n, c.skip 2)
        | none => (Ending.clip, some n, c.skip 1)
      | none => (Ending.clip, none, c)
  if indentation = some 0 then none
  let c := c.skipWhile isBlank
  let c := if c.head? = some '#' then c.skipLine else c
  if c.atEnd then return (ending, indentation.getD 0, c)
  let (_, c) ← c.lineEnd?
  return (ending, indentation.getD 0, c)

def emptyLines? (column : Nat) : Nat → List Char → Nat → Cursor → Option (List Char × Nat × Cursor)
  | 0, _, _, _ => none
  | fuel + 1, breaks, greatest, c =>
    let spaces := (c.span fun x => x = ' ').1.length
    let c := c.skip (if column = 0 then spaces else min spaces (column - c.column))
    let greatest := max greatest c.column
    if (column = 0 || c.column < column) && c.head? = some '\t' then none
    else
      match c.lineEnd? with
      | some (x, next) => emptyLines? column fuel (breaks ++ [x]) greatest next
      | none => some (breaks, greatest, c)

structure Block where
  text : List Char := []
  /-- The line end behind the latest line. -/
  lineEnd : List Char := []
  /-- The empty lines behind it. -/
  empty : List Char := []
  /-- Whether the latest line starts with a blank. -/
  indented : Bool := false

/-- The latest line and the next one; lines that start with blanks are not joined. -/
def Block.joined (b : Block) (literal indented : Bool) : List Char :=
  if !literal && b.lineEnd = ['\n'] && !b.indented && !indented then
    if b.empty.isEmpty then [' '] else b.empty
  else b.lineEnd ++ b.empty

def blockLines? (literal : Bool) (column : Nat) : Nat → Block → Cursor → Option (Block × Cursor)
  | 0, _, _ => none
  | fuel + 1, b, c =>
    if c.column = column && !c.atEnd then do
      let indented := c.head?.any isBlank
      let (line, c) := c.span fun _ => true
      let text := b.text ++ b.joined literal indented ++ line
      match c.lineEnd? with
      | some (x, c) =>
        let (empty, _, c) ← emptyLines? column c.fuel [] 0 c
        blockLines? literal column fuel ⟨text, [x], empty, indented⟩ c
      | none =>
        let (empty, _, c) ← emptyLines? column c.fuel [] 0 c
        blockLines? literal column fuel ⟨text, [], empty, indented⟩ c
    else some (b, c)

/-- A block, from its indicator on. Its lines start further to the right than `indent`. -/
def block? (literal : Bool) (indent : Int) (c : Cursor) : Option (List Char × Cursor) := do
  let (ending, indentation, c) ← blockHeader? (c.skip 1)
  let given : Nat := if indentation = 0 then 0 else (max indent 0).toNat + indentation
  let (empty, greatest, c) ← emptyLines? given c.fuel [] 0 c
  let column := if given = 0 then max greatest (max (indent + 1).toNat 1) else given
  let (b, c) ← blockLines? literal column c.fuel { empty } c
  let kept := match ending with
    | .strip => []
    | .clip => b.lineEnd
    | .keep => b.lineEnd ++ b.empty
  return (b.text ++ kept, c)

def anchor? (c : Cursor) : Option (List Char × Cursor) :=
  let (name, c) := (c.skip 1).span isNameCharacter
  if name.isEmpty || !(isGap c.head? || c.head?.any fun x => "?:,]\x7d%@`".toList.contains x) then
    none
  else some (name, c)

def byteCount? (n : Nat) : Option Nat :=
  if n < 0x80 then some 1
  else if 0xC0 ≤ n ∧ n < 0xE0 then some 2
  else if 0xE0 ≤ n ∧ n < 0xF0 then some 3
  else if 0xF0 ≤ n ∧ n < 0xF8 then some 4
  else none

def byte? : List Char → Option Nat
  | '%' :: a :: b :: _ => do return 16 * (← hexValue? a) + (← hexValue? b)
  | _ => none

def escapedCharacter? (c : Cursor) : Option (Char × Cursor) := do
  let count ← byteCount? (← byte? c.rest)
  let bytes ← (List.range count).mapM fun i => byte? (c.rest.drop (3 * i))
  let text ← String.fromUTF8? ⟨(bytes.map Nat.toUInt8).toArray⟩
  let x ← text.toList.head?
  return (x, c.skip (3 * count))

def tagText? (bracketed : Bool) : Nat → List Char → Cursor → Option (List Char × Cursor)
  | 0, _, _ => none
  | fuel + 1, soFar, c =>
    match c.head? with
    | some x =>
      if x = '%' then do
        let (y, c) ← escapedCharacter? c
        tagText? bracketed fuel (y :: soFar) c
      else if isTagCharacter bracketed x then tagText? bracketed fuel (x :: soFar) (c.skip 1)
      else some (soFar.reverse, c)
    | none => some (soFar.reverse, c)

def handle (c : Cursor) : List Char × Cursor :=
  let (name, next) := (c.skip 1).span isNameCharacter
  if next.head? = some '!' then ('!' :: name ++ ['!'], next.skip 1) else ('!' :: name, next)

/-- Handle and rest of a tag; the handle is empty where the rest is all there is. -/
def tagParts? (c : Cursor) : Option (List Char × List Char × Cursor) :=
  if c.startsWith "!<" then do
    let (text, c) ← tagText? true c.fuel [] (c.skip 2)
    if text.isEmpty || c.head? ≠ some '>' then none
    return ([], text, c.skip 1)
  else
    let (start, next) := handle c
    if 1 < start.length && start.getLast? = some '!' then do
      let (text, c) ← tagText? false next.fuel [] next
      if text.isEmpty then none
      return (start, text, c)
    else do
      let (text, c) ← tagText? false next.fuel [] next
      match start.drop 1 ++ text with
      | [] => return ([], ['!'], c)
      | text => return (['!'], text, c)

def tag? (flow : Bool) (c : Cursor) : Option (List Char × List Char × Cursor) := do
  let (start, text, c) ← tagParts? c
  if isGap c.head? || (flow && c.head? = some ',') then return (start, text, c) else none

inductive Directive where
  | version (major minor : Nat)
  | tag (handle replacement : String)

def number? (c : Cursor) : Option (Nat × Cursor) :=
  let (digits, c) := c.span Char.isDigit
  if digits.isEmpty || 9 < digits.length then none
  else some (digits.foldl (fun n d => 10 * n + (d.toNat - '0'.toNat)) 0, c)

def version? (c : Cursor) : Option (Directive × Cursor) := do
  let (major, c) ← number? (c.skipWhile isBlank)
  if c.head? ≠ some '.' then none
  let (minor, c) ← number? (c.skip 1)
  return (.version major minor, c)

def tagDirective? (c : Cursor) : Option (Directive × Cursor) := do
  let c := c.skipWhile isBlank
  if c.head? ≠ some '!' then none
  let (start, c) := handle c
  if start.length ≠ 1 && start.getLast? ≠ some '!' then none
  if !c.head?.any isBlank then none
  let c := c.skipWhile isBlank
  let (text, c) ← tagText? true c.fuel [] c
  if text.isEmpty || !isGap c.head? then none
  return (.tag (String.ofList start) (String.ofList text), c)

def directive? (c : Cursor) : Option (Directive × Cursor) := do
  let (name, c) := (c.skip 1).span isNameCharacter
  if !isGap c.head? then none
  let (directive, c) ←
    if name = "YAML".toList then version? c
    else if name = "TAG".toList then tagDirective? c
    else none
  let c := c.skipWhile isBlank
  let c := if c.head? = some '#' then c.skipLine else c
  if c.atEnd then return (directive, c)
  let (_, c) ← c.lineEnd?
  return (directive, c)

end ApiContract.Yaml.Lexeme
