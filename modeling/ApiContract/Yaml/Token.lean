import ApiContract.Yaml.Lexeme
import ApiContract.Yaml.Scalar

namespace ApiContract.Yaml

inductive Token where
  | directive (d : Lexeme.Directive)
  | documentStart
  | documentEnd
  | blockListStart
  | blockMapStart
  | blockEnd
  | flowListStart
  | flowListEnd
  | flowMapStart
  | flowMapEnd
  /-- The dash before an item. -/
  | item
  /-- The comma between brackets. -/
  | comma
  | key
  | value
  | alias (name : String)
  | anchor (name : String)
  | tag (handle text : String)
  | scalar (text : String) (style : Style)

/-- What may turn out to be a key, if a colon follows it on the same line and soon. -/
structure PossibleKey where
  /-- Whether nothing else can be meant. -/
  required : Bool
  /-- How many tokens stand before it. -/
  place : Nat
  index : Nat
  line : Nat
  column : Nat

structure Lexer where
  cursor : Cursor
  /-- The tokens so far, the latest one first. -/
  tokens : List Token := []
  count : Nat := 0
  /-- Column of the block, or less than zero outside of all blocks. -/
  indent : Int := -1
  /-- Columns of the blocks around it, innermost first. -/
  outer : List Int := []
  /-- Possible keys: of every open bracket, innermost first, and of the block. -/
  keys : List (Option PossibleKey) := [none]
  /-- Whether a key may start here. -/
  keyAllowed : Bool := true

namespace Lexer

def inFlow (l : Lexer) : Bool := 1 < l.keys.length

def push (l : Lexer) (t : Token) : Lexer := { l with tokens := t :: l.tokens, count := l.count + 1 }

def insertAt (l : Lexer) (place : Nat) (t : Token) : Lexer :=
  { l with tokens := l.tokens.insertIdx (l.count - place) t, count := l.count + 1 }

def skip (l : Lexer) (n : Nat) : Lexer := { l with cursor := l.cursor.skip n }

/-- Blanks, comments and line ends before a token. A tab cannot stand where a key may start; a mark
of the byte order can start a line, and takes its place there. -/
def skipGap : Nat → Lexer → Lexer
  | 0, l => l
  | fuel + 1, l =>
    let c := l.cursor
    match c.head? with
    | none => l
    | some x =>
      if x = ' ' || (x = '\t' && (l.inFlow || !l.keyAllowed)) ||
        (x = byteOrderMark && c.column = 0) then
        skipGap fuel (l.skip 1)
      else if x = '#' then skipGap fuel { l with cursor := c.skipLine }
      else
        match c.lineEnd? with
        | some (_, next) =>
          skipGap fuel { l with cursor := next, keyAllowed := l.keyAllowed || !l.inFlow }
        | none => l

def giveUp : Option PossibleKey → Option (Option PossibleKey)
  | some k => if k.required then none else some none
  | none => some none

def keyLimit : Nat := 1024

def isStale (c : Cursor) (k : PossibleKey) : Bool := k.line < c.line || k.index + keyLimit < c.index

def giveUpStale? (l : Lexer) : Option Lexer := do
  let keys ← l.keys.mapM fun k => if k.any (isStale l.cursor) then giveUp k else some k
  return { l with keys }

def giveUpKey? (l : Lexer) : Option Lexer :=
  match l.keys with
  | [] => none
  | k :: keys => (giveUp k).map fun k => { l with keys := k :: keys }

def noteKey? (l : Lexer) : Option Lexer :=
  if l.keyAllowed then do
    let l ← l.giveUpKey?
    let c := l.cursor
    let k : PossibleKey := ⟨!l.inFlow && l.indent = c.column, l.count, c.index, c.line, c.column⟩
    return { l with keys := some k :: l.keys.drop 1 }
  else some l

def closeTo (column : Int) : List Int → Lexer → Lexer
  | [], l => l
  | i :: outer, l =>
    if column < l.indent then closeTo column outer { l.push .blockEnd with indent := i, outer }
    else l

def closeBlocks (l : Lexer) (column : Int) : Lexer :=
  if l.inFlow then l else closeTo column l.outer l

/-- Opens a block at a column, unless one is open there. Its token stands behind the first `place`
ones. -/
def openBlock (l : Lexer) (column : Nat) (place : Nat) (t : Token) : Lexer :=
  if l.inFlow || column ≤ l.indent then l
  else { l.insertAt place t with indent := column, outer := l.indent :: l.outer }

def openList? (l : Lexer) (t : Token) : Option Lexer := do
  let l ← l.noteKey?
  return { (l.push t).skip 1 with keys := none :: l.keys, keyAllowed := true }

def closeList? (l : Lexer) (t : Token) : Option Lexer := do
  let l ← l.giveUpKey?
  return { (l.push t).skip 1 with
      keys := if l.inFlow then l.keys.drop 1 else l.keys, keyAllowed := false }

def comma? (l : Lexer) : Option Lexer := do
  let l ← l.giveUpKey?
  return { (l.push .comma).skip 1 with keyAllowed := true }

def item? (l : Lexer) : Option Lexer := do
  if !l.inFlow && !l.keyAllowed then none
  let l ← (l.openBlock l.cursor.column l.count .blockListStart).giveUpKey?
  return { (l.push .item).skip 1 with keyAllowed := true }

def key? (l : Lexer) : Option Lexer := do
  if !l.inFlow && !l.keyAllowed then none
  let l ← (l.openBlock l.cursor.column l.count .blockMapStart).giveUpKey?
  return { (l.push .key).skip 1 with keyAllowed := !l.inFlow }

/-- A colon: the possible key before it has been a key, or a value without one starts. -/
def value? (l : Lexer) : Option Lexer :=
  match l.keys with
  | some k :: keys =>
    let l := (l.insertAt k.place .key).openBlock k.column k.place .blockMapStart
    some { (l.push .value).skip 1 with keys := none :: keys, keyAllowed := false }
  | _ =>
    if !l.inFlow && !l.keyAllowed then none
    else
      let l := l.openBlock l.cursor.column l.count .blockMapStart
      some { (l.push .value).skip 1 with keyAllowed := !l.inFlow }

def marker? (l : Lexer) (t : Token) : Option Lexer := do
  let l ← (l.closeBlocks (-1)).giveUpKey?
  return { (l.push t).skip 3 with keyAllowed := false }

def directive? (l : Lexer) : Option Lexer := do
  let l ← (l.closeBlocks (-1)).giveUpKey?
  let (d, cursor) ← Lexeme.directive? l.cursor
  return { l.push (.directive d) with cursor, keyAllowed := false }

def atom? (l : Lexer) (t : Token) (cursor : Cursor) (keyAllowed : Bool) : Option Lexer := do
  let l ← l.noteKey?
  return { l.push t with cursor, keyAllowed }

def anchor? (l : Lexer) (make : String → Token) : Option Lexer := do
  let (name, c) ← Lexeme.anchor? l.cursor
  l.atom? (make (String.ofList name)) c false

def tag? (l : Lexer) : Option Lexer := do
  let (start, text, c) ← Lexeme.tag? l.inFlow l.cursor
  l.atom? (.tag (String.ofList start) (String.ofList text)) c false

def quoted? (l : Lexer) (quote : Char) (style : Style) : Option Lexer := do
  let (text, c) ← Lexeme.quoted? quote l.cursor
  l.atom? (.scalar (String.ofList text) style) c false

def plain? (l : Lexer) : Option Lexer := do
  let (text, broken, c) ← Lexeme.plain? l.inFlow (l.indent + 1).toNat l.cursor
  l.atom? (.scalar (String.ofList text) .plain) c broken

def block? (l : Lexer) (style : Style) : Option Lexer := do
  let l ← l.giveUpKey?
  let (text, cursor) ← Lexeme.block? (style = .literal) l.indent l.cursor
  return { l.push (.scalar (String.ofList text) style) with cursor, keyAllowed := true }

/-- Characters that no scalar without quotes starts with, unless some of them stand before a
word. -/
def indicators : List Char := "-?:,[]\x7b\x7d#&*!|>'\"%@`".toList

def token? (l : Lexer) (x : Char) : Option Lexer :=
  let c := l.cursor
  let apart := isGap (c.peek? 1)
  if c.column = 0 && x = '%' then l.directive?
  else if c.isMarker "---" then l.marker? .documentStart
  else if c.isMarker "..." then l.marker? .documentEnd
  else
    match x with
    | '[' => l.openList? .flowListStart
    | '{' => l.openList? .flowMapStart
    | ']' => l.closeList? .flowListEnd
    | '}' => l.closeList? .flowMapEnd
    | ',' => l.comma?
    | '*' => l.anchor? .alias
    | '&' => l.anchor? .anchor
    | '!' => l.tag?
    | '\'' => l.quoted? '\'' .single
    | '"' => l.quoted? '"' .double
    | '-' => if apart then l.item? else l.plain?
    | '?' => if l.inFlow || apart then l.key? else l.plain?
    | ':' => if l.inFlow || apart then l.value? else l.plain?
    | '|' => if l.inFlow then none else l.block? .literal
    | '>' => if l.inFlow then none else l.block? .folded
    | x => if indicators.contains x || isGap (some x) then none else l.plain?

def run? : Nat → Lexer → Option (List Token)
  | 0, _ => none
  | fuel + 1, l => do
    let l ← (l.skipGap l.cursor.fuel).giveUpStale?
    let l := l.closeBlocks l.cursor.column
    match l.cursor.head? with
    | some x => run? fuel (← l.token? x)
    | none =>
      let l ← (l.closeBlocks (-1)).giveUpKey?
      return l.tokens.reverse

end Lexer

def tokens? (text : List Char) : Option (List Token) :=
  if text.all isAdmissible then
    Lexer.run? (text.length + 1) { cursor := { rest := text } } else none

end ApiContract.Yaml
