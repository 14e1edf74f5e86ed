import ApiContract.Handler.Construction
import ApiContract.Handler.Literal
import ApiContract.Status

namespace ApiContract.Handler

open Source

structure Evaluator where
  context : Context
  parameters : List Parameter
  environment : Environment

namespace Evaluator

variable (v : Evaluator)

def value? (e : Expr) : Option Json := Handler.value? v.context v.environment e

def parameterShape? (name : String) : Option Shape :=
  match v.parameters.find? (fun p => p.name == name) with
  | some ⟨_, .domainObject, some type⟩ => some (.ofType type)
  | some ⟨_, .other, some type⟩ => some (.ofType type)
  | _ => none

def named? (e : Expr) : Option Shape :=
  match localName? e with
  | none => none
  | some name =>
    if name = "self" then none
    else
      match v.environment.lookup name with
      | some shape => some shape
      | none => v.parameterShape? name

/-- Shape of an expression that starts from a local name; a page is taken by any method called. -/
def chainShape? (e : Expr) : Option Shape :=
  match e with
  | .index base _ => v.named? base
  | .field base => v.named? base
  | .path path inner => some ((v.named? (.path path inner)).getD .unresolved)
  | .method receiver name inner args =>
    let chain := Expr.method receiver name inner args
    (v.named? (chainRoot chain)).map fun shape =>
      if (chainMethods chain).any v.context.conventions.isPaginator then shape.paginate else shape
  | _ => none

def constructed (scope : Expr) (found : Construction) (source : Shape) : Shape :=
  let conventions := v.context.conventions
  if v.context.has found.type .transformer then
    .wrapped found.type (found.function.any conventions.isTransformerCollection)
      source.isPaginated source
  else if v.context.has found.type .domainObject then
    let names := calledNames scope
    .raw found.type (names.any conventions.isCollection) (names.any conventions.isPaginator)
  else .ofType found.type

/-- Shape of an expression: its value, what a local name stands for, or what it constructs first. -/
def evaluate (e : Expr) : Shape :=
  let inside := peel e
  match v.value? inside with
  | some value => .literal value
  | none =>
    match v.chainShape? inside with
    | some shape => shape
    | none =>
      match _h : firstConstruction? v.context inside with
      | none => .unresolved
      | some found =>
        let source :=
          match _hx : found.first with
          | some x => evaluate x
          | none => .unresolved
        v.constructed inside found source
termination_by sizeOf e
decreasing_by exact Nat.lt_of_lt_of_le (sizeOf_lt_of_firstConstruction _h _hx) (sizeOf_peel_le e)

def constantStatus? (path : Path) : Option Nat :=
  match path.names.reverse with
  | constant :: "StatusCode" :: _ => Status.ofConstant? constant
  | _ => none

def validStatus? (n : Nat) : Option Nat := if Status.valid n then some n else none

def endsWith (ending text : String) : Bool := ending.toList.isSuffixOf text.toList

def isFromNumber (callee : Expr) : Bool := (callName? callee).any (endsWith "StatusCode::from_u16")

def status? : Expr → Option Nat
  | .paren e => status? e
  | .reference e => status? e
  | .await e => status? e
  | .attempt e => status? e
  | .lit (.integer n _) => validStatus? n
  | .path path _ =>
    match path.ident? with
    | some name =>
      match v.environment.lookup name with
      | some (.literal (.number n)) => n.toNat?.bind validStatus?
      | _ => none
    | none => constantStatus? path
  | .call callee [arg] =>
    if isTransparentCall callee || isFromNumber callee then status? arg else none
  | .method receiver name _ args =>
    if args.length ≤ 1 && transparentMethods.contains name then status? receiver else none
  | _ => none

structure Layers where
  status : Option Nat
  failed : Bool
  payload : Expr

/-- Status of a return whose payload names none. -/
def Layers.fallback (layers : Layers) : Nat :=
  layers.status.getD (if layers.failed then 500 else 200)

mutual

/-- Goes through transparent forms, error layers, and tuples that start with a status. -/
def layers (status : Option Nat) (failed : Bool) : Expr → Layers
  | .paren e => layers status failed e
  | .reference e => layers status failed e
  | .await e => layers status failed e
  | .attempt e => layers status failed e
  | .call callee [arg] =>
    if isTransparentCall callee then layers status failed arg
    else if callName? callee = some "Err" then layers status true arg
    else ⟨status, failed, .call callee [arg]⟩
  | .method receiver name inner args =>
    if args.length ≤ 1 && transparentMethods.contains name then layers status failed receiver
    else ⟨status, failed, .method receiver name inner args⟩
  | .tuple (first :: rest) =>
    if rest.isEmpty then ⟨status, failed, .tuple [first]⟩
    else
      match v.status? first with
      | some code => lastLayers (some code) failed rest
      | none => ⟨status, failed, .tuple (first :: rest)⟩
  | e => ⟨status, failed, e⟩

def lastLayers (status : Option Nat) (failed : Bool) : List Expr → Layers
  | [] => ⟨status, failed, .tuple []⟩
  | e :: rest => if rest.isEmpty then layers status failed e else lastLayers status failed rest

end

def bareStatus? (e : Expr) : Option Nat :=
  match e with
  | .path path _ => constantStatus? path
  | .call callee args =>
    if (callName? callee).any (endsWith "from_u16") then v.status? (.call callee args) else none
  | _ => none

/-- Shape of a payload that starts from a transformer. -/
def transformed? (e : Expr) : Option Shape :=
  match constructionAt? v.context (chainRoot e) with
  | some found =>
    if v.context.has found.type .transformer then
      some (v.constructed e found ((found.first.map v.evaluate).getD .unresolved))
    else none
  | none => none

def responded? (e : Expr) : Option (Expr × List Expr) :=
  match e with
  | .call (.path path _) (payload :: rest) =>
    if (path.last?.map Segment.name).any v.context.conventions.isResponder then
      some (payload, rest) else none
  | .method _ name _ (payload :: rest) =>
    if v.context.conventions.isResponder name then some (payload, rest) else none
  | _ => none

def responder? (e : Expr) : Option (Expr × List Expr) :=
  (e.nodes isImmediate).findSome? v.responded?

def response (e : Expr) : Response :=
  let found := v.layers none false e
  match v.bareStatus? found.payload with
  | some code => ⟨code, .literal .null⟩
  | none =>
    match v.transformed? found.payload with
    | some shape => ⟨found.fallback, shape⟩
    | none =>
      match v.responder? found.payload with
      | some (body, rest) => ⟨(rest.head?.bind v.status?).getD found.fallback, v.evaluate body⟩
      | none => ⟨found.fallback, v.evaluate found.payload⟩

end Evaluator

end ApiContract.Handler
