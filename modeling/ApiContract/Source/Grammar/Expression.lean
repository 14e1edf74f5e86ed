import ApiContract.Source.Grammar.Pattern
import ApiContract.Text.Pieces

namespace ApiContract.Source.Grammar

open Reading

variable (g : Grammar)

namespace Precedence

def jump : Nat := 0
def assign : Nat := 1
def range : Nat := 2
def compare : Nat := 6
def cast : Nat := 13

end Precedence

/-- Binary operators with their precedence. An operator that starts another one comes later. -/
def operators : List (String × Nat) :=
  [("+=", 1), ("-=", 1), ("*=", 1), ("/=", 1), ("%=", 1), ("^=", 1), ("&=", 1), ("|=", 1),
    ("<<=", 1), (">>=", 1), ("&&", 4), ("||", 3), ("<<", 10), (">>", 10), ("==", 6), ("<=", 6),
    ("!=", 6), (">=", 6), ("+", 11), ("-", 11), ("*", 12), ("/", 12), ("%", 12), ("^", 8), ("&", 9),
    ("|", 7), ("<", 6), (">", 6)]

def operator? (tokens : List Token) : Option (String × Nat) :=
  operators.find? fun (op, _) => isOp op tokens

def startsAssignment (ts : List Token) : Bool := isOp "=" ts && !isOp "=>" ts

def nextPrecedence (ts : List Token) : Nat :=
  match operator? ts with
  | some (_, p) => p
  | none =>
    if startsAssignment ts then Precedence.assign
    else if isOp ".." ts then Precedence.range
    else if isWord "as" ts then Precedence.cast
    else Precedence.jump

def rightOperand (records : Bool) (precedence : Nat) : Reader Expr := do
  let first : Operand ← g (.unary records)
  let rec go (operand : Operand) : Nat → Reader Expr
    | 0 => failure
    | fuel + 1 => do
      let before ← ahead
      let next := nextPrecedence before
      if precedence < next || (next = precedence && precedence = Precedence.assign) then
        let longer : Operand ← g (.climb records next operand)
        if (← ahead).length = before.length then return longer.expr
        go longer fuel
      else return operand.expr
  go first ((← ahead).length + 1)

def endsRange (records : Bool) (ts : List Token) : Bool :=
  ts.isEmpty || isOp "," ts || isOp ";" ts || (isOp "." ts && !isOp ".." ts) || isOp "?" ts ||
    isOp "=>" ts || (!records && isGroup .curly ts) || isOp "=" ts || isOp "+" ts || isOp "/" ts ||
    isOp "%" ts || isOp "^" ts || isOp ">" ts || isOp "<=" ts || isOp "!=" ts || isOp "-=" ts ||
    isOp "*=" ts || isOp "&=" ts || isOp "|=" ts || isOp "<<=" ts || isWord "as" ts

def rangeTail (records : Bool) : Reader (List Expr) := do
  let closed ← rangeDots false
  if !closed && (← here (endsRange records)) then return []
  else return [← g.rightOperand records Precedence.range]

/-- Nothing that would continue an operand may follow a cast. -/
def castMayEnd (ts : List Token) : Bool :=
  !((isOp "." ts && !isOp ".." ts) || isOp "?" ts || isGroup .square ts || isGroup .round ts)

def climb (records : Bool) (least : Nat) (left : Operand) : Reader Operand := do
  if left.form = .range then return left
  let ts ← ahead
  match operator? ts with
  | some (op, precedence) =>
    if precedence < least then return left
    if precedence = Precedence.compare && left.form = .comparison then failure
    skip op.length
    let right ← g.rightOperand records precedence
    let form := if precedence = Precedence.compare then Form.comparison else Form.plain
    g (.climb records least ⟨.compound [left.expr, right], form⟩)
  | none =>
    if least ≤ Precedence.assign && startsAssignment ts then
      takeOp "="
      let right ← g.rightOperand records Precedence.assign
      g (.climb records least ⟨.assign left.expr right, .plain⟩)
    else if least ≤ Precedence.range && isOp ".." ts then
      let finish ← g.rangeTail records
      g (.climb records least ⟨.compound (left.expr :: finish), .range⟩)
    else if least ≤ Precedence.cast && isWord "as" ts then
      takeWord "as"
      let type ← g.type false
      if !(← here castMayEnd) then failure
      g (.climb records least ⟨.compound (left.expr :: type.inner), .plain⟩)
    else return left

def isPosition : Literal → Bool
  | .integer n suffix => suffix.isEmpty && n < Nat.pow 2 32
  | _ => false

/-- The text `0.1` behind a point is two positions; a point at its end is not part of them. -/
def positions? (text : String) : Option (Nat × Bool) :=
  let parts := Text.cutAt '.' text.toList
  let (parts, open_) := match parts.getLast? with
    | some [] => (parts.dropLast, true)
    | _ => (parts, false)
  let ok := parts.all fun part =>
    match part with
    | c :: _ => c.isDigit && isPosition (Literal.ofNumeral part)
    | [] => false
  if ok then some (parts.length, open_) else none

def fieldTimes (e : Expr) : Nat → Expr
  | 0 => e
  | n + 1 => fieldTimes (.field e) n

def member (e : Expr) : Reader Expr := do
  if ← acceptWord "await" then return .await e
  match ← ahead with
  | .literal l :: _ =>
    if isPosition l then skip 1; return .field e else failure
  | _ =>
    let name ← ident
    let turbofish ← if ← here (isOp "::") then (do takeOp "::"; some <$> g.angled) else pure none
    if turbofish.isSome || (← here (isGroup .round)) then
      let args ← inside .round (commas (g.expr true))
      return .method e name (turbofish.elim [] Prod.snd) args
    else return .field e

def postfixes (start : Operand) : Reader Operand := do
  let rec go (e : Operand) : Nat → Reader Operand
    | 0 => failure
    | fuel + 1 => do
      let ts ← ahead
      if isGroup .round ts then
        let args ← inside .round (commas (g.expr true))
        go ⟨.call e.expr args, .plain⟩ fuel
      else if isOp "." ts && !isOp ".." ts && e.form ≠ .range then
        takeOp "."
        match ← ahead with
        | .literal (.fraction _ _ text) :: _ =>
          match positions? text with
          | none => failure
          | some (count, open_) =>
            skip 1
            if open_ then go ⟨← g.member (fieldTimes e.expr count), .plain⟩ fuel
            else go ⟨fieldTimes e.expr count, .plain⟩ fuel
        | _ => go ⟨← g.member e.expr, .plain⟩ fuel
      else if isGroup .square ts then
        let position ← inside .square (g.expr true)
        go ⟨.index e.expr position, .plain⟩ fuel
      else if isOp "?" ts && e.form ≠ .range then
        takeOp "?"
        go ⟨.attempt e.expr, .plain⟩ fuel
      else return e
  go start ((← ahead).length + 1)

/-- Content of a macro that the analysis reads. A content that is not of the macro's form is no
error of the text: it is left unread. -/
def macroValue (name : String) (tokens : List Token) : Expr :=
  if name == "json" then
    match all (g .template : Reader Template) tokens with
    | some template => .json template
    | none => .expansion
  else if name == "vec" then
    match all (commas (g.expr true)) tokens with
    | some elements => .vec elements
    | none => .expansion
  else .expansion

def macroTail (path : Path) : Reader Operand := do
  takeOp "!"
  let (bracket, tokens) ← groupTokens
  let name := (path.last?.map Segment.name).getD ""
  return ⟨g.macroValue name tokens, .macroCall (bracket == .curly)⟩

def fieldInit : Reader FieldInit := do
  let _ ← g.outerAttributes
  match ← ahead with
  | .literal l :: _ =>
    if !isPosition l then failure
    skip 1
    takeOp ":"
    return .mk none (← g.expr)
  | _ =>
    let name ← ident
    if ← acceptOp ":" then return .mk (some name) (← g.expr)
    else return .mk (some name) (.path (.ofIdent name) [])

def record (found : PathRead) : Reader Expr := do
  let (fields, rest) ← inside .curly do
    let rec go (soFar : List FieldInit) : Nat → Reader (List FieldInit × Option Expr)
      | 0 => failure
      | fuel + 1 => do
        if ← atEnd then return (soFar.reverse, none)
        if ← acceptOp ".." then
          if ← atEnd then return (soFar.reverse, none) else return (soFar.reverse, some (← g.expr))
        let field ← g.fieldInit
        if ← atEnd then return ((field :: soFar).reverse, none)
        takeOp ","
        go (field :: soFar) fuel
    go [] ((← ahead).length + 1)
  return .record found.path found.inner fields rest

def pathOperand (records : Bool) : Reader Operand := do
  let found ← g.qualifiedPath true
  if !found.fromType && found.path.isPlain && (← here fun ts => isOp "!" ts && !isOp "!=" ts) then
    g.macroTail found.path
  else if records && (← here (isGroup .curly)) then return ⟨← g.record found, .plain⟩
  else return ⟨.path found.path found.inner, .plain⟩

def roundOperand : Reader Expr :=
  inside .round do
    if ← atEnd then return .tuple []
    let first ← g.expr
    if ← atEnd then return .paren first
    takeOp ","
    return .tuple (first :: (← commas (g.expr true)))

def squareOperand : Reader Expr :=
  inside .square do
    if ← atEnd then return .array []
    let first ← g.expr
    if ← atEnd then return .array [first]
    if ← acceptOp "," then return .array (first :: (← commas (g.expr true)))
    takeOp ";"
    return .compound [first, ← g.expr]

def blockPart : Reader Expr := do return .block (← g.block)

def blockPartWithAttributes : Reader Expr := do return .block (← g.blockWithAttributes).2

/-- Alternatives with `else if` are nested branches. -/
def branch : Reader Expr := do
  let rec go : Nat → Reader Expr
    | 0 => failure
    | fuel + 1 => do
      takeWord "if"
      let condition ← g.expr false
      let body ← g.block
      if ← acceptWord "else" then
        if ← here (isWord "if") then return .branch condition body (some (← go fuel))
        else return .branch condition body (some (.block (← g.block)))
      else return .branch condition body none
  go ((← ahead).length + 1)

def needsComma (e : Operand) : Bool := e.form ≠ .blockLike

def arms : Reader (List Arm) :=
  manyWhile (do return !(← atEnd)) do
    let _ ← g.outerAttributes
    let pattern ← g.patterns
    let guard ← if ← acceptWord "if" then some <$> g.expr else pure none
    takeOp "=>"
    let body : Operand ← g .early
    if needsComma body then
      if !(← atEnd) then takeOp ","
    else
      let _ ← acceptOp ","
    return .mk pattern.inner guard body.expr

def cases : Reader Expr := do
  takeWord "match"
  let subject ← g.expr false
  let arms ← inside .curly do
    let _ ← g.innerAttributes
    g.arms
  return .cases subject arms

def loopOrBlock : Reader Expr := do
  let ts ← ahead
  if isWord "while" ts then
    takeWord "while"
    let condition ← g.expr false
    return .compound [condition, ← g.blockPartWithAttributes]
  else if isWord "for" ts then
    takeWord "for"
    let pattern ← g.patterns
    takeWord "in"
    let source ← g.expr false
    return .compound (pattern.inner ++ [source, ← g.blockPartWithAttributes])
  else if isWord "loop" ts then
    takeWord "loop"
    return .compound [← g.blockPartWithAttributes]
  else g.blockPartWithAttributes

def labeled : Reader Operand := do
  lifetime
  takeOp ":"
  if ← here fun ts =>
    isWord "while" ts || isWord "for" ts || isWord "loop" ts || isGroup .curly ts then
    return ⟨← g.loopOrBlock, .blockLike⟩
  else failure

def startsExpr (ts : List Token) : Bool :=
  (isAnyIdent ts && !isWord "as" ts) || isGroup .round ts || isGroup .square ts ||
    isGroup .curly ts || isLit ts || (isOp "!" ts && !isOp "!=" ts) ||
    (isOp "-" ts && !isOp "-=" ts && !isOp "->" ts) || (isOp "*" ts && !isOp "*=" ts) ||
    (isOp "|" ts && !isOp "|=" ts) || (isOp "&" ts && !isOp "&=" ts) || isOp ".." ts ||
    (isOp "<" ts && !isOp "<=" ts && !isOp "<<=" ts) || isOp "::" ts || isLifetime ts || isOp "#" ts

def closureParam : Reader (List Expr) := do
  let _ ← g.outerAttributes
  let pattern ← g.pattern
  if ← acceptOp ":" then return pattern.inner ++ (← g.type).inner else return pattern.inner

def closure (records : Bool) : Reader Expr := do
  let binder ← g.binder?
  let _ ← acceptWord "const"
  let _ ← acceptWord "static"
  let _ ← acceptWord "async"
  let _ ← acceptWord "move"
  takeOp "|"
  let params ← separated (takeOp ",") (here (isOp "|")) g.closureParam
  takeOp "|"
  if ← acceptOp "->" then
    let output ← g.type
    return .closure (binder.getD [] ++ params.flatten ++ output.inner ++ [← g.blockPart])
  else return .closure (binder.getD [] ++ params.flatten ++ [← g.expr records])

def startsBinder (ts : List Token) : Bool :=
  isWord "for" ts && isOp "<" (ts.drop 1) && (isLifetime (ts.drop 2) || isOp ">" (ts.drop 2))

def startsClosure (ts : List Token) : Bool :=
  isOp "|" ts || isWord "move" ts || startsBinder ts ||
    (isWord "const" ts && !isGroup .curly (ts.drop 1)) || isWord "static" ts ||
    (isWord "async" ts && (isOp "|" (ts.drop 1) || isWord "move" (ts.drop 1)))

def jumpOut (records : Bool) : Reader Expr := do
  takeWord "break"
  let labelled ← here isLifetime
  if labelled then
    lifetime
    if ← here (isOp ":") then failure
  if ← here fun ts => startsExpr ts && (records || !isGroup .curly ts) then
    return .compound [← g.expr]
  else return .compound []

def atom (records : Bool) : Reader Operand := do
  let ts ← ahead
  let next := ts.drop 1
  let plain (e : Expr) : Operand := ⟨e, .plain⟩
  let blockLike (e : Expr) : Operand := ⟨e, .blockLike⟩
  if isLit ts then return plain (.lit (← lit))
  else if isWord "async" ts &&
    (isGroup .curly next || (isWord "move" next && isGroup .curly (next.drop 1))) then
    takeWord "async"
    let _ ← acceptWord "move"
    return plain (.async (← g.block))
  else if isWord "try" ts && isGroup .curly next then
    takeWord "try"
    return blockLike (.compound [← g.blockPart])
  else if startsClosure ts then return plain (← g.closure records)
  else if isWord "builtin" ts && isOp "#" next then
    takeWord "builtin"
    takeOp "#"
    let _ ← ident
    match ← groupTokens with
    | (.round, _) => return plain (.compound [])
    | _ => failure
  else if isPathStart ts || (isWord "try" ts && (isOp "!" next || isOp "::" next)) then
    g.pathOperand records
  else if isGroup .round ts then return plain (← g.roundOperand)
  else if isWord "break" ts then return plain (← g.jumpOut records)
  else if isWord "continue" ts then
    takeWord "continue"
    if ← here isLifetime then lifetime
    return plain (.compound [])
  else if isWord "return" ts then
    takeWord "return"
    if ← here startsExpr then return plain (.ret (some (← g.expr))) else return plain (.ret none)
  else if isWord "become" ts then
    takeWord "become"
    let _ ← g.expr
    return plain (.compound [])
  else if isGroup .square ts then return plain (← g.squareOperand)
  else if isWord "let" ts then
    takeWord "let"
    let pattern ← g.patterns
    takeOp "="
    let first : Operand ← g (.unary records)
    let value : Operand ← g (.climb records Precedence.compare first)
    return plain (.compound (pattern.inner ++ [value.expr]))
  else if isWord "if" ts then return blockLike (← g.branch)
  else if isWord "while" ts || isWord "for" ts || isWord "loop" ts then
    return blockLike (← g.loopOrBlock)
  else if isWord "match" ts then return blockLike (← g.cases)
  else if isWord "yield" ts then
    takeWord "yield"
    if ← here startsExpr then return plain (.compound [← g.expr]) else return plain (.compound [])
  else if isWord "unsafe" ts then
    takeWord "unsafe"
    return blockLike (.unchecked (← g.blockWithAttributes).2)
  else if isWord "const" ts then
    takeWord "const"
    return blockLike (.compound [← g.blockPartWithAttributes])
  else if isGroup .curly ts then return blockLike (← g.blockPartWithAttributes)
  else if isOp ".." ts then return ⟨.compound (← g.rangeTail records), .range⟩
  else if isWord "_" ts then
    takeWord "_"
    return plain (.compound [])
  else if isLifetime ts then g.labeled
  else failure

def unary (records : Bool) : Reader Operand := do
  let attributes ← g.outerAttributes
  let ts ← ahead
  if isOp "&" ts then
    takeOp "&"
    let raw ← here fun ts =>
        isWord "raw" ts && (isWord "mut" (ts.drop 1) || isWord "const" (ts.drop 1))
    if raw then
      skip 2
      let target : Operand ← g (.unary records)
      return ⟨.compound [target.expr], .plain⟩
    else
      let _ ← acceptWord "mut"
      let target : Operand ← g (.unary records)
      return ⟨.reference target.expr, .plain⟩
  else if isOp "*" ts || isOp "!" ts then
    skip 1
    let operand : Operand ← g (.unary records)
    return ⟨.compound [operand.expr], .plain⟩
  else if isOp "-" ts then
    skip 1
    let operand : Operand ← g (.unary records)
    return ⟨.negate operand.expr, .plain⟩
  else
    let found ← g.postfixes (← g.atom records)
    if !attributes.isEmpty && found.form = .range then failure
    return found

def readExpr (records : Bool) : Reader Operand := do
  let first : Operand ← g (.unary records)
  g (.climb records Precedence.jump first)

/-- A statement's expression: one that ends with a block goes on only with a point or a question
mark. -/
def readEarly : Reader Operand := do
  let _ ← g.outerAttributes
  let ts ← ahead
  let first ←
    if isWord "if" ts || isWord "while" ts || (isWord "for" ts && !startsBinder ts) ||
      isWord "loop" ts || isWord "match" ts || (isWord "try" ts && isGroup .curly (ts.drop 1)) ||
      isWord "unsafe" ts || (isWord "const" ts && isGroup .curly (ts.drop 1)) ||
      isGroup .curly ts then g.atom true
    else if isLifetime ts then g.labeled
    else g.unary true
  if first.form ≠ .blockLike then g (.climb true Precedence.jump first)
  else if ← here fun ts => (isOp "." ts && !isOp ".." ts) || isOp "?" ts then
    let longer ← g.postfixes first
    g (.climb true Precedence.jump longer)
  else return first

/-- A literal of the data format. A brace opens an object and a bracket an array, whatever
follows. -/
def readTemplate : Reader Template := do
  let ts ← ahead
  if isGroup .curly ts then
    let entries ← inside .curly (commas do
      let key ←
        match ← ahead with
        | .literal (.string s) :: _ => skip 1; pure (TemplateKey.text s)
        | _ => TemplateKey.value <$> g.expr
      takeOp ":"
      let value : Template ← g .template
      return TemplateEntry.mk key value)
    return .object entries
  else if isGroup .square ts then
    let items ← inside .square (commas (g .template : Reader Template))
    return .array items
  else if isWord "null" ts && (ts.length = 1 || isOp "," (ts.drop 1)) then
    skip 1
    return .null
  else return .value (← g.expr)

end ApiContract.Source.Grammar
