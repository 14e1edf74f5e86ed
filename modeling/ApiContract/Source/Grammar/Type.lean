import ApiContract.Source.Grammar.Goal

namespace ApiContract.Source.Grammar

open Reading

variable (g : Grammar)

structure PathRead where
  path : Path
  inner : List Expr
  /-- Whether the path starts from a type in angle brackets. -/
  fromType : Bool := false

def constantArgument : Reader Expr := do
  if ← here isLit then return .lit (← lit)
  else if ← here isIdent then return .path (.ofIdent (← ident)) []
  else if ← here (isGroup .curly) then
    let (_, body) ← g.blockWithAttributes
    return .block body
  else failure

def returnType (plus : Bool) : Reader (List Expr) := do
  if ← acceptOp "->" then return (← g.type plus).inner else return []

def parenthesizedArguments : Reader (List Expr) := do
  let inputs ← inside .round (commas g.type)
  let output ← g.returnType false
  return (inputs.map Typed.inner).flatten ++ output

def genericArgument : Reader (GenericArg × List Expr) := do
  if ← here fun ts => isLifetime ts && !isOp "+" (ts.drop 1) then
    lifetime
    return (.other, [])
  if ← here fun ts => isLit ts || isGroup .curly ts then
    return (.other, [← g.constantArgument])
  let found ← g.type
  let named :=
    match found.type with
    | .path (.mk false [.mk _ .none]) => true
    | .path (.mk false [.mk _ (.angled _)]) => true
    | _ => false
  if named && (← acceptOp "=") then
    if ← here fun ts => isLit ts || isGroup .curly ts then
      return (.other, found.inner ++ [← g.constantArgument])
    return (.other, found.inner ++ (← g.type).inner)
  if named && (← acceptOp ":") then
    let limits ← joined "+" (here fun ts => isOp "," ts || isOp ">" ts) g.bound
    return (.other, found.inner ++ limits.flatten)
  return (.type found.type, found.inner)

def angled : Reader (List GenericArg × List Expr) := do
  takeOp "<"
  let args ← separated (takeOp ",") (here (isOp ">")) g.genericArgument
  takeOp ">"
  return (args.map Prod.fst, (args.map Prod.snd).flatten)

def segment (inExpr : Bool) : Reader (Segment × List Expr) := do
  if ← here fun ts => isRoot ts || isWord "try" ts then return (.mk (← anyIdent) .none, [])
  let name ← if ← here (isWord "Self") then anyIdent else ident
  let open_ ← here fun ts =>
    (!inExpr && isOp "<" ts && !isOp "<=" ts && !isOp "<<=" ts) ||
      (isOp "::" ts && isOp "<" (ts.drop 2))
  if open_ then
    let _ ← acceptOp "::"
    let (args, inner) ← g.angled
    return (.mk name (.angled args), inner)
  else return (.mk name .none, [])

/-- More segments; a double colon before round brackets does not continue the path. -/
def moreSegments (inExpr : Bool) : Reader (List (Segment × List Expr)) :=
  manyWhile (here fun ts => isOp "::" ts && !isGroup .round (ts.drop 2)) do
    takeOp "::"
    g.segment inExpr

def path (inExpr : Bool) : Reader PathRead := do
  let rooted ← acceptOp "::"
  let first ← g.segment inExpr
  let found := first :: (← g.moreSegments inExpr)
  return { path := .mk rooted (found.map Prod.fst), inner := (found.map Prod.snd).flatten }

def qualifiedPath (inExpr : Bool) : Reader PathRead := do
  if ← acceptOp "<" then
    let this ← g.type
    let trait ← if ← acceptWord "as" then some <$> g.path false else pure none
    takeOp ">"
    takeOp "::"
    let first ← g.segment inExpr
    let rest ← manyWhile (here (isOp "::")) do
      takeOp "::"
      g.segment inExpr
    let found := first :: rest
    let segments := found.map Prod.fst
    let inner := (found.map Prod.snd).flatten
    match trait with
    | some t =>
      return { path := .mk t.path.rooted (t.path.segments ++
        segments), inner := this.inner ++ t.inner ++ inner,
               fromType := true }
    | none => return { path := .mk true segments, inner := this.inner ++ inner, fromType := true }
  else g.path inExpr

def lastIsBare (p : Path) : Bool :=
  match p.last? with
  | some (.mk _ .none) => true
  | _ => false

def closeLast (p : Path) : Path :=
  match p with
  | .mk rooted segments =>
    .mk rooted
      (segments.dropLast ++ (segments.getLast?.map fun s => .mk s.name .parenthesized).toList)

/-- Round brackets behind a bare segment, as in `Fn(A) -> B`. Where nothing is yielded, the path may
go on behind them. -/
def typePath : Reader PathRead := do
  let found ← g.qualifiedPath false
  let rec go (found : PathRead) : Nat → Reader PathRead
    | 0 => failure
    | fuel + 1 => do
      let more ← here fun ts => isGroup .round ts || (isOp "::" ts && isGroup .round (ts.drop 2))
      if lastIsBare found.path && more then
        let _ ← acceptOp "::"
        let inputs ← inside .round (commas g.type)
        let inner := found.inner ++ (inputs.map Typed.inner).flatten
        let closed := closeLast found.path
        if ← acceptOp "->" then
          let output ← g.type false
          let inner := inner ++ output.inner
          match output.type with
          | .paren _ =>
            let rest ← g.moreSegments false
            go { found with path := .mk closed.rooted (closed.segments ++ rest.map Prod.fst),
                            inner := inner ++ (rest.map Prod.snd).flatten } fuel
          | _ => return { found with path := closed, inner }
        else
          let rest ← g.moreSegments false
          go { found with path := .mk closed.rooted (closed.segments ++ rest.map Prod.fst),
                          inner := inner ++ (rest.map Prod.snd).flatten } fuel
      else return found
  go found ((← ahead).length + 1)

def lifetimeBounds (stop : List Token → Bool) : Reader Unit := do
  if ← acceptOp ":" then
    let _ ← joined "+" (here stop) lifetime

def genericParam : Reader (List Expr) := do
  let _ ← g.outerAttributes
  if ← here isLifetime then
    lifetime
    lifetimeBounds fun ts => isOp "," ts || isOp ">" ts
    return []
  else if ← acceptWord "const" then
    let _ ← ident
    takeOp ":"
    let type ← g.type
    if ← acceptOp "=" then return type.inner ++ [← g.constantArgument] else return type.inner
  else if ← acceptWord "_" then return []
  else
    let _ ← ident
    let limits ←
      if ← acceptOp ":" then
        joined "+" (here fun ts => isOp "," ts || isOp ">" ts || isOp "=" ts) g.bound
      else pure []
    let absent ← if ← acceptOp "=" then (do return (← g.type).inner) else pure []
    return limits.flatten ++ absent

def binder? : Reader (Option (List Expr)) := do
  if ← acceptWord "for" then
    takeOp "<"
    let params ← separated (takeOp ",") (here (isOp ">")) g.genericParam
    takeOp ">"
    return some params.flatten
  else return none

def generics : Reader (List Expr) := do
  if ← acceptOp "<" then
    let params ← separated (takeOp ",") (here (isOp ">")) g.genericParam
    takeOp ">"
    return params.flatten
  else return []

/-- A trait as a bound. A binder excludes the mark of a relaxed bound. -/
def traitBound : Reader (List Expr) := do
  let binder ← g.binder?
  if ← acceptOp "~" then takeWord "const"
  else if ← here (isGroup .square) then inside .square (takeWord "const")
  else
    let _ ← acceptWord "const"
  let relaxed ← acceptOp "?"
  let late ← if relaxed && binder.isNone then g.binder? else pure none
  let found ← g.path false
  let args ←
    if lastIsBare found.path &&
        (← here fun ts => isGroup .round ts || (isOp "::" ts && isGroup .round (ts.drop 2))) then
      let _ ← acceptOp "::"
      g.parenthesizedArguments
    else pure []
  if relaxed && (binder.isSome || late.isSome) then failure
  return binder.getD [] ++ found.inner ++ args

def readBound (capture : Bool) : Reader (List Expr) := do
  if ← here isLifetime then
    lifetime
    return []
  else if ← acceptWord "use" then
    if !capture then failure
    takeOp "<"
    let _ ← separated (takeOp ",") (here (isOp ">")) (do
      if ← here isLifetime then lifetime else let _ ← anyIdent)
    takeOp ">"
    return []
  else if ← here (isGroup .round) then inside .round g.traitBound
  else g.traitBound

def startsBound (tokens : List Token) : Bool :=
  isAnyIdent tokens || isOp "::" tokens || isOp "?" tokens || isLifetime tokens ||
    isGroup .round tokens

def moreBounds (capture : Bool) : Reader (List Expr) := do
  let found ← many do
    if ← acceptOp "+" then
      if ← here startsBound then return some (some (← g.bound capture)) else return some none
    else return none
  return (found.filterMap id).flatten

def typeBounds (plus capture : Bool) : Reader (List Expr) := do
  let firstIsTrait ← here fun ts => !isLifetime ts && !isWord "use" ts
  let first ← g.bound capture
  if !plus then
    if firstIsTrait then return first else failure
  let rec go (trait : Bool) : Nat → Reader (List Expr)
    | 0 => failure
    | fuel + 1 => do
      if ← acceptOp "+" then
        if ← here startsBound then
          let isTrait ← here fun ts => !isLifetime ts && !isWord "use" ts
          let next ← g.bound capture
          return next ++ (← go (trait || isTrait) fuel)
        else if trait then return [] else failure
      else if trait then return [] else failure
  return first ++ (← go firstIsTrait ((← ahead).length + 1))

def whereClause : Reader (List Expr) := do
  if ← acceptWord "where" then
    let stop := fun ts =>
      List.isEmpty ts || isGroup .curly ts || isOp "," ts || isOp ";" ts ||
        (isOp ":" ts && !isOp "::" ts) || isOp "=" ts
    let clauses ← joined "," (here stop) do
      if ← here fun ts => isLifetime ts && isOp ":" (ts.drop 1) then
        lifetime
        lifetimeBounds stop
        return []
      else
        let binder ← g.binder?
        let subject ← g.type
        takeOp ":"
        let limits ← joined "+" (here stop) g.bound
        return binder.getD [] ++ subject.inner ++ limits.flatten
    return clauses.flatten
  else return []

def acceptConvention : Reader Bool := do
  if ← acceptWord "extern" then
    if ← here isString then skip 1
    return true
  else return false

def bareParam (first : Bool) : Reader (List Expr) := do
  let _ ← g.outerAttributes
  let mutSelf ← here fun ts => first && isWord "mut" ts && isWord "self" (ts.drop 1)
  if mutSelf then takeWord "mut"
  let named ← here fun ts =>
    (isIdent ts || isWord "_" ts || (first && isWord "self" ts)) && isOp ":" (ts.drop 1) &&
      !isOp "::" (ts.drop 1)
  if named then
    let _ ← anyIdent
    takeOp ":"
  if mutSelf && !named then
    takeWord "self"
    return []
  return (← g.type).inner

def functionType : Reader (List Expr) := do
  let _ ← acceptWord "unsafe"
  let _ ← acceptConvention
  takeWord "fn"
  let inputs ← inside .round do
    let rec go (first : Bool) : Nat → Reader (List Expr)
      | 0 => failure
      | fuel + 1 => do
        if ← atEnd then return []
        let variadic ← would do
          let _ ← g.outerAttributes
          if ← here fun ts => (isIdent ts || isWord "_" ts) && isOp ":" (ts.drop 1) &&
              isOp "..." (ts.drop 2) then
            skip 2
          takeOp "..."
        if variadic then
          let _ ← g.outerAttributes
          if !(← here (isOp "...")) then skip 2
          takeOp "..."
          let _ ← acceptOp ","
          return []
        let inner ← g.bareParam first
        if ← atEnd then return inner
        takeOp ","
        return inner ++ (← go false fuel)
    go true ((← ahead).length + 1)
  let output ← g.returnType false
  return inputs ++ output

def roundType (plus : Bool) : Reader Typed := do
  match ← ahead with
  | .group _ [] :: _ => skip 1; return ⟨.other, []⟩
  | .group _ content :: _ =>
    if isLifetime content then
      let inner ← inside .round (g.typeBounds true false)
      return ⟨.paren .other, inner⟩
    else if isOp "?" content then
      let first ← inside .round g.traitBound
      let rest ← many do
        if ← acceptOp "+" then return some (← g.bound) else return none
      return ⟨.other, first ++ rest.flatten⟩
    else
      let (types, isTuple) ← inside .round do
        let first ← g.type
        if ← acceptOp "," then return (first :: (← commas g.type), true)
          else return ([first], false)
      let inner := (types.map Typed.inner).flatten
      match types, isTuple with
      | [t], false =>
        if plus && (← here (isOp "+")) then
          match t.type with
          | .path _ =>
            let rest ← many do
              if ← acceptOp "+" then return some (← g.bound) else return none
            return ⟨.other, inner ++ rest.flatten⟩
          | _ => return ⟨.paren t.type, inner⟩
        else return ⟨.paren t.type, inner⟩
      | _, _ => return ⟨.other, inner⟩
  | [] => failure
  | _ => failure

def namedType (plus : Bool) (binder : Option (List Expr)) : Reader Typed := do
  let found ← g.typePath
  if found.fromType then return ⟨.path found.path, found.inner⟩
  if found.path.isPlain && (← here fun ts => isOp "!" ts && !isOp "!=" ts) then
    takeOp "!"
    let _ ← groupTokens
    return ⟨.other, found.inner⟩
  let inner := binder.getD [] ++ found.inner
  if binder.isSome || (plus && (← here (isOp "+"))) then
    if plus then return ⟨.other, inner ++ (← g.moreBounds false)⟩ else return ⟨.other, inner⟩
  else return ⟨.path found.path, inner⟩

def isPathStart (tokens : List Token) : Bool :=
  isIdent tokens || isRoot tokens || isWord "Self" tokens || isOp "::" tokens || isOp "<" tokens

/-- A type; `plus` if bounds with plus signs may belong to it. -/
def readType (plus : Bool) : Reader Typed := do
  let binder ← g.binder?
  let ts ← ahead
  if binder.isSome && !(isIdent ts || isWord "fn" ts || isWord "unsafe" ts || isWord "extern" ts ||
      isRoot ts || isWord "Self" ts) then
    failure
  if isGroup .round ts then g.roundType plus
  else if isWord "fn" ts || isWord "unsafe" ts || isWord "extern" ts then
    return ⟨.other, binder.getD [] ++ (← g.functionType)⟩
  else if isPathStart ts then g.namedType plus binder
  else if isWord "dyn" ts then
    takeWord "dyn"
    let _ ← acceptOp "*"
    return ⟨.other, ← g.typeBounds plus false⟩
  else if isGroup .square ts then
    let inner ← inside .square do
      let element ← g.type
      if ← acceptOp ";" then return element.inner ++ [← g.expr] else return element.inner
    return ⟨.other, inner⟩
  else if isOp "*" ts then
    takeOp "*"
    if !(← acceptWord "const") then takeWord "mut"
    return ⟨.other, (← g.type false).inner⟩
  else if isOp "&" ts then
    takeOp "&"
    if ← here isLifetime then lifetime
    let _ ← acceptWord "mut"
    let target ← g.type false
    return ⟨.reference target.type, target.inner⟩
  else if isOp "!" ts && !isOp "=" ts then
    takeOp "!"
    return ⟨.other, []⟩
  else if isWord "impl" ts then
    takeWord "impl"
    return ⟨.other, ← g.typeBounds plus true⟩
  else if isWord "_" ts then
    takeWord "_"
    return ⟨.other, []⟩
  else failure

end ApiContract.Source.Grammar
