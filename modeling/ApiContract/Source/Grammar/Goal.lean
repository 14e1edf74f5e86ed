import ApiContract.Source.Reading

namespace ApiContract.Source

/-- What has to be known of an expression to read on behind it. -/
inductive Form where
  | plain
  /-- A range, behind which neither an operator nor a postfix may stand. -/
  | range
  | comparison
  /-- A form that ends with a block and is complete as a statement. -/
  | blockLike
  | macroCall (curly : Bool)
deriving DecidableEq

structure Operand where
  expr : Expr
  form : Form

structure Typed where
  type : TypeExpr
  inner : List Expr

structure Matched where
  pattern : Pattern
  inner : List Expr
  /-- Whether the pattern is a range with an open end. -/
  openRange : Bool := false

inductive Goal where
  /-- An expression; `records` if a record may stand where a block could follow. -/
  | expr (records : Bool)
  | unary (records : Bool)
  /-- The operators behind an operand, from a least precedence on. -/
  | climb (records : Bool) (least : Nat) (left : Operand)
  /-- An expression that ends early if it is complete as a statement. -/
  | early
  | type (plus : Bool)
  /-- A bound of a type; `capture` if it may list what it captures. -/
  | bound (capture : Bool)
  | pattern
  | statements
  | item
  | template

def Goal.Result : Goal → Type
  | expr _ | unary _ | climb .. | early => Operand
  | type _ => Typed
  | bound _ => List Expr
  | pattern => Matched
  | statements => List Stmt
  | item => Item
  | template => Template

/-- The parts of the grammar refer to one another through a reader for every goal; the knot is tied
over the depth of the tree. -/
abbrev Grammar := (goal : Goal) → Reader goal.Result

namespace Reading

/-- A path of plain identifiers. A double colon at its end is an error. -/
def plainPath : Reader Path := do
  let rooted ← acceptOp "::"
  let start := here fun ts => isIdent ts || isRoot ts || isWord "Self" ts || isWord "try" ts
  if !(← start) then failure
  let first ← anyIdent
  let rest ← manyWhile (here (isOp "::")) do
    takeOp "::"
    if ← start then anyIdent else failure
  return .mk rooted ((first :: rest).map (.mk · .none))

end Reading

namespace Grammar

open Reading

variable (g : Grammar)

def expr (records : Bool := true) : Reader Expr := do
  let found : Operand ← g (.expr records)
  return found.expr

def type (plus : Bool := true) : Reader Typed := g (.type plus)

def bound (capture : Bool := false) : Reader (List Expr) := g (.bound capture)

def pattern : Reader Matched := g .pattern

def statements : Reader (List Stmt) := g .statements

def block : Reader (List Stmt) := inside .curly g.statements

def attributeBody : Reader Attribute := do
  let path ←
    if ← here (isWord "unsafe") then (do let name ← anyIdent; return Path.ofIdent name)
      else plainPath
  match ← ahead with
  | .group _ tokens :: _ => skip 1; return ⟨path, .list tokens⟩
  | tokens =>
    if isOp "=" tokens then
      takeOp "="
      let only : Reader Literal := do
        let l ← lit
        if ← atEnd then return l else failure
      match ← attempt only with
      | some (.string s) => return ⟨path, .value (some s)⟩
      | some _ => return ⟨path, .value none⟩
      | none =>
        if ← here (fun ts => isOp "#" ts && isGroup .square (ts.drop 1)) then failure
        let _ ← g.expr
        return ⟨path, .value none⟩
    else return ⟨path, .word⟩

def outerAttributes : Reader (List Attribute) :=
  manyWhile (here (isOp "#")) do
    takeOp "#"
    inside .square g.attributeBody

def innerAttributes : Reader (List Attribute) :=
  manyWhile (here fun ts => isOp "#" ts && isOp "!" (ts.drop 1)) do
    takeOp "#"
    takeOp "!"
    inside .square g.attributeBody

def blockWithAttributes : Reader (List Attribute × List Stmt) :=
  inside .curly do
    let attributes ← g.innerAttributes
    return (attributes, ← g.statements)

end Grammar

end ApiContract.Source
