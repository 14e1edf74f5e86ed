import ApiContract.Source.Grammar.Expression

namespace ApiContract.Source.Grammar

open Reading

variable (g : Grammar)

/-- How many tokens say who may see an item. Round brackets behind `pub` belong to them only if they
hold a scope. -/
def visibilityLength (tokens : List Token) : Nat :=
  if isWord "pub" tokens then
    match tokens.drop 1 with
    | .group .round content :: _ =>
      let scope :=
        match content with
        | [.ident name] => name == "crate" || name == "self" || name == "super"
        | .ident "in" :: path => (all plainPath path).isSome
        | _ => false
      if scope then 2 else 1
    | _ => 1
  else 0

def visibility : Reader Bool := do
  let length := visibilityLength (← ahead)
  skip length
  return length != 0

def startsFunction (safe : Bool) (tokens : List Token) : Bool :=
  let drop := fun (word : String) (ts : List Token) => if isWord word ts then ts.drop 1 else ts
  let ts := drop "async" (drop "const" tokens)
  let ts := if safe && isWord "safe" ts then ts.drop 1 else drop "unsafe" ts
  let ts :=
    if isWord "extern" ts then
      let rest := ts.drop 1
      if isString rest then rest.drop 1 else rest
    else ts
  isWord "fn" ts

def receiver : Reader (List Expr) := do
  let byRef ← acceptOp "&"
  if byRef then
    if ← here isLifetime then lifetime
  let _ ← acceptWord "mut"
  takeWord "self"
  if !byRef && (← acceptOp ":") then return (← g.type).inner else return []

def parameters : Reader (List (Param × List Expr)) :=
  inside .round do
    let rec go (first hadReceiver : Bool) : Nat → Reader (List (Param × List Expr))
      | 0 => failure
      | fuel + 1 => do
        if ← atEnd then return []
        let _ ← g.outerAttributes
        if ← acceptOp "..." then
          if !(← atEnd) then takeOp ","
          return []
        let found ← attempt g.receiver
        match found with
        | some inner =>
          if hadReceiver || !first then failure
          if ← atEnd then return [(.receiver, inner)]
          takeOp ","
          return (.receiver, inner) :: (← go false true fuel)
        | none =>
          let param ←
            if ← here fun ts => isIdent ts && isOp "<" (ts.drop 1) then
              let type ← g.type
              pure (some (Param.typed .other type.type, type.inner))
            else
              let pattern ← g.pattern
              takeOp ":"
              if ← acceptOp "..." then pure none
              else
                let type ← g.type
                pure (some (Param.typed pattern.pattern type.type, pattern.inner ++ type.inner))
          match param with
          | none =>
            if !(← atEnd) then takeOp ","
            return []
          | some p =>
            if ← atEnd then return [p]
            takeOp ","
            return p :: (← go false hadReceiver fuel)
    go true false ((← ahead).length + 1)

structure Signature where
  name : String
  params : List Param
  inner : List Expr

def modifiers (safe : Bool) : Reader Unit := do
  let _ ← acceptWord "const"
  let _ ← acceptWord "async"
  if safe && (← here (isWord "safe")) then skip 1
  else
    let _ ← acceptWord "unsafe"
  let _ ← acceptConvention

def signature (safe : Bool := false) : Reader Signature := do
  modifiers safe
  takeWord "fn"
  let name ← ident
  let generics ← g.generics
  let params ← g.parameters
  let output ← g.returnType true
  let clauses ← g.whereClause
  return ⟨name, params.map Prod.fst, generics ++ clauses ++ (params.map Prod.snd).flatten ++ output⟩

def functionBody (attributes : List Attribute) (s : Signature) : Reader Function := do
  let (more, body) ← g.blockWithAttributes
  return .mk (attributes ++ more) s.name s.params s.inner body

def newName : Reader String := do
  if ← here fun ts => isIdent ts || isWord "_" ts then anyIdent else failure

/-- What is imported, and whether a double colon starts a part of it. -/
def useTree (roots : Bool) : Nat → Reader (Option UseTree)
  | 0 => failure
  | fuel + 1 => do
    let ts ← ahead
    if isIdent ts || isRoot ts || isWord "try" ts then
      let name ← anyIdent
      if ← acceptOp "::" then
        return (← useTree false fuel).map (UseTree.path name)
      else if ← acceptWord "as" then return some (.rename name (← newName))
      else return some (.name name)
    else if isOp "*" ts then
      takeOp "*"
      return some .glob
    else if isGroup .curly ts then
      let trees ← inside .curly (commas do
        let rooted ← if roots then acceptOp "::" else pure false
        let tree ← useTree (roots && !rooted) fuel
        return if rooted then none else tree)
      return if trees.all Option.isSome then some (.group (trees.filterMap id)) else none
    else failure

def importItem : Reader Item := do
  let _ ← visibility
  takeWord "use"
  let rooted ← acceptOp "::"
  let tree ← useTree (!rooted) (Token.weightAll (← ahead) + 1)
  takeOp ";"
  match tree with
  | some tree => return .imports tree
  | none => return .other []

def namedField : Reader (FieldDecl × List Expr) := do
  let attributes ← g.outerAttributes
  let _ ← visibility
  let unnamed ← here (isWord "_")
  let name ← if unnamed then anyIdent else ident
  takeOp ":"
  if unnamed &&
    (← here fun ts => isWord "struct" ts || (isWord "union" ts && isGroup .curly (ts.drop 1))) then
    skip 1
    let _ ← groupTokens
    return (⟨attributes, name, .other⟩, [])
  let type ← g.type
  return (⟨attributes, name, type.type⟩, type.inner)

def namedFields : Reader (List (FieldDecl × List Expr)) := inside .curly (commas g.namedField)

def positionalFields : Reader (List Expr) := do
  let inner ← inside .round (commas do
    let _ ← g.outerAttributes
    let _ ← visibility
    return (← g.type).inner)
  return inner.flatten

def structItem (attributes : List Attribute) : Reader Item := do
  let _ ← visibility
  takeWord "struct"
  let name ← ident
  let generics ← g.generics
  let hasClause ← here (isWord "where")
  let clauses ← g.whereClause
  if !hasClause && (← here (isGroup .round)) then
    let inner ← g.positionalFields
    let clauses ← g.whereClause
    takeOp ";"
    return .struct attributes name .positional (generics ++ clauses ++ inner)
  else if ← here (isGroup .curly) then
    let fields ← g.namedFields
    return .struct attributes name (.named (fields.map Prod.fst))
      (generics ++ clauses ++ (fields.map Prod.snd).flatten)
  else
    takeOp ";"
    return .struct attributes name .unit (generics ++ clauses)

def variant : Reader (List Expr) := do
  let _ ← g.outerAttributes
  let _ ← visibility
  let _ ← ident
  let inner ←
    if ← here (isGroup .curly) then (do return ((← g.namedFields).map Prod.snd).flatten)
    else if ← here (isGroup .round) then g.positionalFields
    else pure []
  if ← acceptOp "=" then return inner ++ [← g.expr] else return inner

def enumItem (attributes : List Attribute) : Reader Item := do
  let _ ← visibility
  takeWord "enum"
  let name ← ident
  let generics ← g.generics
  let clauses ← g.whereClause
  let variants ← inside .curly (commas g.variant)
  return .enum attributes name (generics ++ clauses ++ variants.flatten)

def unionItem : Reader Item := do
  let _ ← visibility
  takeWord "union"
  let name ← ident
  let generics ← g.generics
  let clauses ← g.whereClause
  let fields ← g.namedFields
  return .declaration name (generics ++ clauses ++ (fields.map Prod.snd).flatten)

def boundsUntil (stop : List Token → Bool) : Reader (List Expr) := do
  if ← acceptOp ":" then
    return (← separated (takeOp "+") (here stop) g.bound).flatten
  else return []

structure Alias where
  name : String
  inner : List Expr
  complete : Bool

def aliasRest (clauseFirst clauseLast : Bool) : Reader Alias := do
  takeWord "type"
  let name ← ident
  let generics ← g.generics
  let bounded ← here (isOp ":")
  let limits ← g.boundsUntil fun ts => isWord "where" ts || isOp "=" ts || isOp ";" ts
  let hadClause ← here (isWord "where")
  let before ← if clauseFirst then g.whereClause else pure []
  let definition ← if ← acceptOp "=" then some <$> g.type else pure none
  let after ← if clauseLast && !(clauseFirst && hadClause) then g.whereClause else pure []
  takeOp ";"
  return ⟨name, generics ++ before ++ after ++ limits ++ definition.elim [] Typed.inner,
    definition.isSome && !bounded⟩

structure Constant where
  inner : List Expr
  generic : Bool
  hasValue : Bool

def constantRest : Reader Constant := do
  let _ ← newName
  let isGeneric ← here (isOp "<")
  let generics ← g.generics
  takeOp ":"
  let type ← g.type
  let value ← if ← acceptOp "=" then some <$> g.expr else pure none
  let hasClause ← here (isWord "where")
  let clauses ← g.whereClause
  takeOp ";"
  return ⟨generics ++ clauses ++ type.inner ++ value.toList, isGeneric || hasClause, value.isSome⟩

def macroItem (named : Bool) : Reader Unit := do
  let _ ← plainPath
  takeOp "!"
  if named then
    if ← here fun ts => isIdent ts || isWord "try" ts then skip 1
  let (bracket, _) ← groupTokens
  if bracket != .curly then takeOp ";"

def startsMacro (ts : List Token) : Bool := isIdent ts || isRoot ts || isOp "::" ts

def traitMember : Reader (List Expr) := do
  let _ ← g.outerAttributes
  let visible ← visibility
  let defaulted ← acceptWord "default"
  let hidden := visible || defaulted
  let keep (inner : List Expr) : List Expr := if hidden then [] else inner
  if ← here (startsFunction false) then
    let s ← g.signature
    if ← acceptOp ";" then return keep s.inner
    else
      let (_, body) ← g.blockWithAttributes
      return keep (s.inner ++ [.block body])
  else if ← acceptWord "const" then
    let c ← g.constantRest
    return if c.generic then [] else keep c.inner
  else if ← here (isWord "type") then
    let a ← g.aliasRest false true
    return keep a.inner
  else if !hidden && (← here startsMacro) then
    macroItem false
    return []
  else failure

def traitBody (generics : List Expr) (name : String) : Reader Item := do
  let limits ← g.boundsUntil fun ts => isWord "where" ts || isGroup .curly ts
  let clauses ← g.whereClause
  let members ← inside .curly do
    let _ ← g.innerAttributes
    manyWhile (do return !(← atEnd)) g.traitMember
  return .declaration name (generics ++ clauses ++ limits ++ members.flatten)

def traitItem : Reader Item := do
  let _ ← visibility
  let isUnsafe ← acceptWord "unsafe"
  let isAuto ← acceptWord "auto"
  takeWord "trait"
  let name ← ident
  let generics ← g.generics
  if !isUnsafe && !isAuto && (← acceptOp "=") then
    let limits ← separated (takeOp "+") (here fun ts => isWord "where" ts || isOp ";" ts) g.bound
    let clauses ← g.whereClause
    takeOp ";"
    return .other (generics ++ clauses ++ limits.flatten)
  else g.traitBody generics name

def implMember : Reader Member := do
  let attributes ← g.outerAttributes
  let visible ← visibility
  let defaulted ←
    if ← here fun ts => isWord "default" ts && !isOp "!" (ts.drop 1) then acceptWord "default"
      else pure false
  if ← here (startsFunction false) then
    let s ← g.signature
    if ← acceptOp ";" then return .other []
    else return .function (← g.functionBody attributes s)
  else if ← acceptWord "const" then
    let c ← g.constantRest
    return .other (if c.generic || !c.hasValue then [] else c.inner)
  else if ← here (isWord "type") then
    let a ← g.aliasRest false true
    return .other (if a.complete then a.inner else [])
  else if !visible && !defaulted && (← here startsMacro) then
    macroItem false
    return .other []
  else failure

/-- Angle brackets behind `impl` hold parameters, unless they start a qualified path. -/
def startsParameters (ts : List Token) : Bool :=
  let next := ts.drop 1
  let after := ts.drop 2
  isOp "<" ts && (isOp ">" next || isOp "#" next ||
      ((isLifetime next || isIdent next) && (isOp ">" after || isOp "," after ||
          (isOp ":" after && !isOp "::" after) || isOp "=" after)) ||
      isWord "const" next)

def constMark : Reader Bool := do
  if ← here fun ts => isWord "const" ts || (isOp "?" ts && isWord "const" (ts.drop 1)) then
    let _ ← acceptOp "?"
    takeWord "const"
    return true
  else return false

def negation : Reader Bool := do
  if ← here fun ts => isOp "!" ts && !isGroup .curly (ts.drop 1) then acceptOp "!" else return false

def implItem : Reader Item := do
  let visible ← visibility
  let _ ← acceptWord "default"
  let _ ← acceptWord "unsafe"
  takeWord "impl"
  let generics ← if ← here startsParameters then g.generics else pure []
  let isConst ← constMark
  let negative ← negation
  let fromType ← here (isOp "<")
  let first ← g.type
  let isFor ← acceptWord "for"
  if negative && !isFor then failure
  let second ← if isFor then some <$> g.type else pure none
  let trait : Option Path :=
    match second, first.type with
    | some _, .path p => if fromType then none else some p
    | _, _ => none
  let self : TypeExpr := second.elim first.type Typed.type
  let inner := first.inner ++ second.elim [] Typed.inner
  let clauses ← g.whereClause
  let members ← inside .curly do
    let _ ← g.innerAttributes
    manyWhile (do return !(← atEnd)) g.implMember
  if visible || isConst || (isFor && trait.isNone) then return .other []
  else return .implementation trait self (generics ++ clauses ++ inner) members

/-- The name of a module may be a word that was no keyword once. -/
def moduleName : Reader String := do
  if ← here (isWord "try") then anyIdent else ident

def moduleItem : Reader Item := do
  let _ ← visibility
  let _ ← acceptWord "unsafe"
  takeWord "mod"
  let name ← moduleName
  if ← acceptOp ";" then return .module name none
  else
    let items ← inside .curly do
      let _ ← g.innerAttributes
      manyWhile (do return !(← atEnd)) (g .item : Reader Item)
    return .module name (some items)

def staticItem : Reader Item := do
  let _ ← visibility
  takeWord "static"
  let _ ← acceptWord "mut"
  let _ ← ident
  if ← acceptOp "=" then
    let _ ← g.expr
    takeOp ";"
    return .other []
  takeOp ":"
  let type ← g.type
  if ← acceptOp ";" then return .other []
  takeOp "="
  let value ← g.expr
  takeOp ";"
  return .other (type.inner ++ [value])

def foreignMember : Reader (List Expr) := do
  let _ ← g.outerAttributes
  let _ ← visibility
  if ← here (startsFunction true) then
    let s ← g.signature true
    if ← here (isGroup .curly) then
      let _ ← g.blockWithAttributes
      return []
    takeOp ";"
    return s.inner
  else if ← here fun ts => isWord "static" ts ||
    ((isWord "unsafe" ts || isWord "safe" ts) && isWord "static" (ts.drop 1)) then
    if !(← acceptWord "static") then skip 2
    let _ ← acceptWord "mut"
    let _ ← ident
    takeOp ":"
    let type ← g.type
    if ← acceptOp "=" then
      let _ ← g.expr
      takeOp ";"
      return []
    takeOp ";"
    return type.inner
  else if ← here (isWord "type") then
    let a ← g.aliasRest true true
    return if a.complete then [] else a.inner
  else if ← here startsMacro then
    macroItem false
    return []
  else failure

def foreignItem : Reader Item := do
  let _ ← acceptWord "unsafe"
  if !(← acceptConvention) then failure
  let members ← inside .curly do
    let _ ← g.innerAttributes
    manyWhile (do return !(← atEnd)) g.foreignMember
  return .other members.flatten

def externItem : Reader Item := do
  let _ ← visibility
  takeWord "extern"
  takeWord "crate"
  let _ ← if ← here (isWord "self") then anyIdent else ident
  if ← acceptWord "as" then
    let _ ← newName
  takeOp ";"
  return .other []

def itemRest (attributes : List Attribute) : Reader Item := do
  let start ← ahead
  let visible := visibilityLength start != 0
  let ts := start.drop (visibilityLength start)
  let next := ts.drop 1
  if isWord "fn" ts || startsFunction false ts then
    let _ ← visibility
    let s ← g.signature
    if ← acceptOp ";" then return .other []
    else return .function (← g.functionBody attributes s)
  else if isWord "extern" ts then
    if isWord "crate" next then externItem
    else if isGroup .curly next || (isString next && isGroup .curly (next.drop 1)) then
      if visible then failure else g.foreignItem
    else failure
  else if isWord "use" ts then importItem
  else if isWord "static" ts then g.staticItem
  else if isWord "const" ts then
    let _ ← visibility
    takeWord "const"
    let c ← g.constantRest
    return .other (if c.generic || !c.hasValue then [] else c.inner)
  else if isWord "unsafe" ts then
    if isWord "trait" next || (isWord "auto" next && isWord "trait" (next.drop 1)) then g.traitItem
    else if isWord "impl" next then g.implItem
    else if isWord "extern" next then
      if visible then failure else g.foreignItem
    else if isWord "mod" next then g.moduleItem
    else failure
  else if isWord "mod" ts then g.moduleItem
  else if isWord "type" ts then
    let _ ← visibility
    let a ← g.aliasRest true false
    return if a.complete then .declaration a.name a.inner else .other []
  else if isWord "struct" ts then g.structItem attributes
  else if isWord "enum" ts then g.enumItem attributes
  else if isWord "union" ts && isIdent next then g.unionItem
  else if isWord "trait" ts || (isWord "auto" ts && isWord "trait" next) then g.traitItem
  else if isWord "impl" ts || (isWord "default" ts && !isOp "!" next) then g.implItem
  else if isWord "macro" ts then
    let _ ← visibility
    takeWord "macro"
    let _ ← ident
    if ← here (isGroup .round) then skip 1
    if ← here (isGroup .curly) then skip 1 else failure
    return .other []
  else if !visible && startsMacro ts then
    macroItem true
    return .other []
  else failure

def readItem : Reader Item := do
  let attributes ← g.outerAttributes
  g.itemRest attributes

def endsWithBrace (before after : List Token) : Bool :=
  match (before.take (before.length - after.length)).getLast? with
  | some (.group .curly _) => true
  | _ => false

def binding : Reader Stmt := do
  takeWord "let"
  let pattern ← g.pattern
  let type ← if ← acceptOp ":" then some <$> g.type else pure none
  let found : Pattern :=
    match type with
    | some t => .typed pattern.pattern t.type
    | none => pattern.pattern
  let inner := pattern.inner ++ type.elim [] Typed.inner
  if ← acceptOp "=" then
    let before ← ahead
    let value ← g.expr
    let after ← ahead
    let otherwise ←
      if !endsWithBrace before after && isWord "else" after then
        takeWord "else"
        some <$> g.blockPart
      else pure none
    takeOp ";"
    return .bind found inner (some value) otherwise
  else
    takeOp ";"
    return .bind found inner none none

def startsItem (ts : List Token) : Bool :=
  let next := ts.drop 1
  let after := ts.drop 2
  isWord "pub" ts || (isWord "crate" ts && !isOp "::" next) || isWord "extern" ts ||
    isWord "use" ts || (isWord "static" ts && (isWord "mut" next ||
        (isIdent next && !(isWord "async" next && (isWord "move" after || isOp "|" after))))) ||
    (isWord "const" ts && !(isGroup .curly next || isWord "static" next || (isWord "async" next &&
          !(isWord "unsafe" after || isWord "extern" after || isWord "fn" after)) ||
        isWord "move" next || isOp "|" next)) ||
    (isWord "unsafe" ts && !isGroup .curly next) ||
    (isWord "async" ts && (isWord "unsafe" next || isWord "extern" next || isWord "fn" next)) ||
    isWord "fn" ts || isWord "mod" ts || isWord "type" ts || isWord "struct" ts ||
    isWord "enum" ts || (isWord "union" ts && isIdent next) ||
    (isWord "auto" ts && isWord "trait" next) || isWord "trait" ts ||
    (isWord "default" ts && (isWord "unsafe" next || isWord "impl" next)) || isWord "impl" ts ||
    isWord "macro" ts

inductive MacroStart where
  | item | statement | none

/-- What a path with an exclamation mark starts: an item if a name follows, a statement if braces
follow that nothing is called on. -/
def macroStart (ts : List Token) : MacroStart :=
  match plainPath.run ts with
  | some (_, rest) =>
    if isOp "!" rest then
      let next := rest.drop 1
      let after := rest.drop 2
      if isIdent next || isWord "try" next then .item
      else if isGroup .curly next &&
        !((isOp "." after && !isOp ".." after) || isOp "?" after) then .statement
      else .none
    else .none
  | none => .none

/-- One statement, and whether a semicolon has to separate it from the next one. -/
def statement : Reader (Stmt × Bool) := do
  let attributes ← g.outerAttributes
  let ts ← ahead
  let expression : Reader (Stmt × Bool) := do
    let e : Operand ← g .early
    let closed ← acceptOp ";"
    match e.form with
    | .macroCall curly =>
      if closed || curly then return (.expansion e.expr closed, !closed && !curly)
      else return (.expr e.expr false, true)
    | form => return (.expr e.expr closed, !closed && form ≠ .blockLike)
  match macroStart ts with
  | .statement =>
    let path ← plainPath
    let e ← g.macroTail path
    let closed ← acceptOp ";"
    return (.expansion e.expr closed, false)
  | .item => return (.item (← g.itemRest attributes), false)
  | .none =>
    if isWord "let" ts then return (← g.binding, false)
    else if startsItem ts then return (.item (← g.itemRest attributes), false)
    else expression

/-- Statements up to the end. A lone semicolon is an empty statement. -/
def readStatements : Reader (List Stmt) := do
  let rec go : Nat → Reader (List Stmt)
    | 0 => failure
    | fuel + 1 => do
      if ← atEnd then return []
      if ← acceptOp ";" then return .expr (.compound []) true :: (← go fuel)
      let (s, needsEnd) ← g.statement
      if ← atEnd then return [s]
      if needsEnd then failure
      return s :: (← go fuel)
  go ((← ahead).length + 1)

end ApiContract.Source.Grammar
