import ApiContract.Source.Grammar.Type

namespace ApiContract.Source.Grammar

open Reading

variable (g : Grammar)

def startsAlternative (ts : List Token) : Bool := isOp "|" ts && !isOp "||" ts && !isOp "|=" ts

/-- Alternatives with bars between them; with `leading`, a bar may come first. -/
def patterns (leading : Bool := true) : Reader Matched := do
  let led ← if leading then acceptOp "|" else pure false
  let first ← g.pattern
  if led || (← here startsAlternative) then
    let rest ← manyWhile (here startsAlternative) do
      takeOp "|"
      g.pattern
    return ⟨.other, first.inner ++ (rest.map Matched.inner).flatten, false⟩
  else return first

def rangeEnd? : Reader (Option (List Expr)) := do
  let ts ← ahead
  if ts.isEmpty || isOp "|" ts || isOp "=" ts || (isOp ":" ts && !isOp "::" ts) || isOp "," ts ||
    isOp ";" ts || isWord "if" ts then return none
  else if isLit ts then
    let _ ← lit
    return some []
  else if isPathStart ts then return some (← g.qualifiedPath true).inner
  else if isWord "const" ts then
    takeWord "const"
    let (_, body) ← g.blockWithAttributes
    return some [.block body]
  else failure

def rangeDots (obsolete : Bool) : Reader Bool := do
  if ← acceptOp "..=" then return true
  else if ← here (isOp "...") then
    if obsolete then takeOp "..."; return true else failure
  else takeOp ".."; return false

def rangeFrom (start : List Expr) : Reader Matched := do
  let closed ← rangeDots true
  match ← g.rangeEnd? with
  | some finish => return ⟨.other, start ++ finish, false⟩
  | none => if closed then failure else return ⟨.other, start, true⟩

def fieldPattern : Reader (List Expr) := do
  let boxed ← acceptWord "box"
  let byRef ← acceptWord "ref"
  let mutable ← acceptWord "mut"
  if boxed || byRef || mutable then
    let _ ← ident
    return []
  let named ← here isIdent
  if named then skip 1
  else
    match ← lit with
    | .integer n suffix => if suffix.isEmpty && n < Nat.pow 2 32 then pure () else failure
    | _ => failure
  if !named || (← here (isOp ":")) then
    takeOp ":"
    return (← g.patterns).inner
  else return []

def recordPattern : Reader (List Expr) :=
  inside .curly do
    let rec go : Nat → Reader (List Expr)
      | 0 => failure
      | fuel + 1 => do
        if ← atEnd then return []
        let _ ← g.outerAttributes
        if ← acceptOp ".." then return []
        let inner ← g.fieldPattern
        if ← atEnd then return inner
        takeOp ","
        return inner ++ (← go fuel)
    go ((← ahead).length + 1)

def pathPattern : Reader Matched := do
  let found ← g.qualifiedPath true
  let ts ← ahead
  if !found.fromType && found.path.isPlain && isOp "!" ts && !isOp "!=" ts then
    takeOp "!"
    let _ ← groupTokens
    return ⟨.other, found.inner, false⟩
  else if isGroup .curly ts then return ⟨.other, found.inner ++ (← g.recordPattern), false⟩
  else if isGroup .round ts then
    let elements ← inside .round (commas g.patterns)
    return ⟨.constructor (elements.map Matched.pattern),
      found.inner ++ (elements.map Matched.inner).flatten, false⟩
  else if isOp ".." ts then g.rangeFrom found.inner
  else return ⟨.other, found.inner, false⟩

def namePattern : Reader Matched := do
  let _ ← acceptWord "ref"
  let _ ← acceptWord "mut"
  let name ← if ← here (isWord "self") then anyIdent else ident
  if ← acceptOp "@" then return ⟨.name name, (← g.pattern).inner, false⟩
  else return ⟨.name name, [], false⟩

def continuesName (ts : List Token) : Bool :=
  isOp "::" ts || isOp "!" ts || isGroup .curly ts || isGroup .round ts || isOp ".." ts

def readPattern : Reader Matched := do
  let ts ← ahead
  if (isIdent ts && continuesName (ts.drop 1)) || (isWord "self" ts && isOp "::" (ts.drop 1)) ||
    isOp "::" ts || isOp "<" ts || isWord "Self" ts || isWord "super" ts ||
    isWord "crate" ts then g.pathPattern
  else if isWord "_" ts then
    takeWord "_"
    return ⟨.other, [], false⟩
  else if isWord "box" ts then
    takeWord "box"
    let _ ← g.pattern
    return ⟨.other, [], false⟩
  else if isOp "-" ts || isLit ts || isWord "const" ts then
    match ← g.rangeEnd? with
    | none => failure
    | some start => if ← here (isOp "..") then g.rangeFrom start else return ⟨.other, start, false⟩
  else if isWord "ref" ts || isWord "mut" ts || isWord "self" ts || isIdent ts then g.namePattern
  else if isOp "&" ts then
    takeOp "&"
    let _ ← acceptWord "mut"
    let inside ← g.pattern
    return ⟨.reference inside.pattern, inside.inner, false⟩
  else if isGroup .round ts then
    let elements ← inside .round (commas g.patterns)
    return ⟨.other, (elements.map Matched.inner).flatten, false⟩
  else if isGroup .square ts then
    let elements ← inside .square (commas do
      let found ← g.patterns
      if found.openRange then failure else return found)
    return ⟨.other, (elements.map Matched.inner).flatten, false⟩
  else if isOp ".." ts && !isOp "..." ts then
    let closed ← rangeDots false
    match ← g.rangeEnd? with
    | some finish => return ⟨.other, finish, true⟩
    | none => if closed then failure else return ⟨.other, [], false⟩
  else failure

end ApiContract.Source.Grammar
