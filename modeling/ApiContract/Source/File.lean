import ApiContract.Source.Grammar.Item
import ApiContract.Source.Lexer

namespace ApiContract.Source

namespace Grammar

def level (g : Grammar) : Grammar
  | .expr records => g.readExpr records
  | .unary records => g.unary records
  | .climb records least left => g.climb records least left
  | .early => g.readEarly
  | .type plus => g.readType plus
  | .bound capture => g.readBound capture
  | .pattern => g.readPattern
  | .statements => g.readStatements
  | .item => g.readItem
  | .template => g.readTemplate

def toDepth : Nat → Grammar
  | 0 => fun _ => failure
  | depth + 1 => level (toDepth depth)

/-- A grammar that is deep enough for these tokens: below every token there are only so many levels
that take none. -/
def forTokens (tokens : List Token) : Grammar := toDepth (16 * (Token.weightAll tokens + 4))

end Grammar

def dropOrderMark : List Char → List Char
  | c :: rest => if c.toNat = 0xFEFF then rest else c :: rest
  | [] => []

/-- A first line that names an interpreter is no part of the source; `#![` starts an attribute. -/
def dropInterpreterLine (text : List Char) : List Char :=
  match text with
  | '#' :: '!' :: rest =>
    match Lexer.skip rest.length rest with
    | '[' :: _ => text
    | _ => text.dropWhile (· ≠ '\n')
  | _ => text

open Reading in
def File.parse? (text : String) : Option File := do
  let source := dropOrderMark (dropInterpreterLine (dropOrderMark text.toList))
  let tokens ← Lexer.tokens? source
  let g := Grammar.forTokens tokens
  let items ← all (do
    let _ ← g.innerAttributes
    manyWhile (do return !(← atEnd)) (g .item : Reader Item)) tokens
  return ⟨items⟩

end ApiContract.Source
