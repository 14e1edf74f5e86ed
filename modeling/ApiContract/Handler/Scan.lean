import ApiContract.Handler.Evaluation

namespace ApiContract.Handler

open Source

structure Scan where
  environment : Environment := []
  responses : List Response := []

namespace Scan

variable (c : Context) (parameters : List Parameter)

def evaluator (s : Scan) : Evaluator := ⟨c, parameters, s.environment⟩

def record (s : Scan) (e : Expr) : Scan :=
  { s with responses := s.responses ++ [(s.evaluator c parameters).response e] }

def recordEmpty (s : Scan) : Scan := { s with responses := s.responses ++ [⟨200, .literal .null⟩] }

def bind (s : Scan) (name : Option String) (e : Expr) : Scan :=
  match name with
  | some name =>
    { s with environment := s.environment.bind name ((s.evaluator c parameters).evaluate e) }
  | none => s

def site (s : Scan) (tail : Bool) (e : Expr) : Scan := if tail then s.record c parameters e else s

def boundName? : Pattern → Option String
  | .name ident => some ident
  | .typed pattern _ => boundName? pattern
  | _ => none

mutual

/-- Passes through an expression; `tail` says that the body ends with it. -/
def expr (tail : Bool) : Expr → Scan → Scan
  | .lit value, s => s.site c parameters tail (.lit value)
  | .path path inner, s => (exprs inner s).site c parameters tail (.path path inner)
  | .paren e, s => (expr false e s).site c parameters tail (.paren e)
  | .reference e, s => (expr false e s).site c parameters tail (.reference e)
  | .negate e, s => (expr false e s).site c parameters tail (.negate e)
  | .tuple elements, s => (exprs elements s).site c parameters tail (.tuple elements)
  | .array elements, s => (exprs elements s).site c parameters tail (.array elements)
  | .record path inner fieldInits rest, s =>
    (option false rest (fields fieldInits (exprs inner s))).site c parameters tail
      (.record path inner fieldInits rest)
  | .call callee args, s =>
    (exprs args (expr false callee s)).site c parameters tail (.call callee args)
  | .method receiver name inner args, s =>
    (exprs args (exprs inner (expr false receiver s))).site c parameters tail
      (.method receiver name inner args)
  | .field base, s => (expr false base s).site c parameters tail (.field base)
  | .index base position, s =>
    (expr false position (expr false base s)).site c parameters tail (.index base position)
  | .await e, s => (expr false e s).site c parameters tail (.await e)
  | .attempt e, s => (expr false e s).site c parameters tail (.attempt e)
  | .assign left right, s =>
    ((expr false right s).bind c parameters (localName? left) right).site c parameters tail
      (.assign left right)
  | .ret none, s => s.recordEmpty
  | .ret (some e), s => (expr false e s).record c parameters e
  | .closure parts, s => s.site c parameters tail (.closure parts)
  | .async body, s => s.site c parameters tail (.async body)
  | .branch condition body otherwise, s =>
    option tail otherwise (stmts tail body (expr false condition s))
  | .cases subject alternatives, s => arms tail alternatives (expr false subject s)
  | .block body, s => stmts tail body s
  | .unchecked body, s => stmts tail body s
  | .json template, s => s.site c parameters tail (.json template)
  | .vec elements, s => s.site c parameters tail (.vec elements)
  | .expansion, s => s.site c parameters tail .expansion
  | .compound parts, s => (exprs parts s).site c parameters tail (.compound parts)

def exprs : List Expr → Scan → Scan
  | [], s => s
  | e :: rest, s => exprs rest (expr false e s)

def option (tail : Bool) : Option Expr → Scan → Scan
  | none, s => s
  | some e, s => expr tail e s

def fields : List FieldInit → Scan → Scan
  | [], s => s
  | .mk _ e :: rest, s => fields rest (expr false e s)

def arms (tail : Bool) : List Arm → Scan → Scan
  | [], s => s
  | .mk inner guard body :: rest, s =>
    arms tail rest (expr tail body (option false guard (exprs inner s)))

def stmts (tail : Bool) : List Stmt → Scan → Scan
  | [], s => s
  | .bind _ _ none _ :: rest, s => stmts tail rest s
  | .bind pattern _ (some value) otherwise :: rest, s =>
    stmts tail rest
      ((option false otherwise (expr false value s)).bind c parameters (boundName? pattern) value)
  | .item _ :: rest, s => stmts tail rest s
  | .expr e closed :: rest, s => stmts tail rest (expr (tail && rest.isEmpty && !closed) e s)
  | .expansion e closed :: rest, s =>
    stmts tail rest (s.site c parameters (tail && rest.isEmpty && !closed) e)

end

end Scan

/-- The responses at the return sites of a body: every explicit return, and the expressions that
stand where the body ends. Branches are not merged, and of several assignments to a name the last
one counts. Deferred code and items inside the body do not take part. -/
def responsesOf (c : Context) (parameters : List Parameter) (body : List Stmt) : List Response :=
  (Scan.stmts c parameters true body {}).responses

end ApiContract.Handler
