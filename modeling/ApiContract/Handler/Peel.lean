import ApiContract.Source.Tree

namespace ApiContract.Handler

open Source

def callName? : Expr → Option String
  | .path path _ => some path.text
  | _ => none

def transparentCalls : List String := ["Ok", "Some", "Box::new", "Arc::new", "Rc::new"]

def transparentMethods : List String := ["into_response", "into", "unwrap", "expect"]

def isTransparentCall (callee : Expr) : Bool :=
  match callName? callee with
  | some name => transparentCalls.contains name
  | none => false

/-- An expression without transparent forms around it. -/
def peel : Expr → Expr
  | .paren e => peel e
  | .reference e => peel e
  | .await e => peel e
  | .attempt e => peel e
  | .call callee [arg] => if isTransparentCall callee then peel arg else .call callee [arg]
  | .method receiver name inner args =>
    if args.length ≤ 1 && transparentMethods.contains name then peel receiver
    else .method receiver name inner args
  | e => e

theorem sizeOf_peel_le (e : Expr) : sizeOf (peel e) ≤ sizeOf e := by
  fun_induction peel e with
  | case1 e ih | case2 e ih | case3 e ih | case4 e ih =>
    simp only [Expr.paren.sizeOf_spec, Expr.reference.sizeOf_spec, Expr.await.sizeOf_spec,
      Expr.attempt.sizeOf_spec]
    omega
  | case5 callee arg _ ih =>
    simp only [Expr.call.sizeOf_spec, List.cons.sizeOf_spec, List.nil.sizeOf_spec]
    omega
  | case6 => exact Nat.le_refl _
  | case7 receiver _ _ _ _ ih =>
    simp only [Expr.method.sizeOf_spec]
    omega
  | case8 => exact Nat.le_refl _
  | case9 => exact Nat.le_refl _

def chainRoot : Expr → Expr
  | .method receiver _ _ _ => chainRoot receiver
  | .field base => chainRoot base
  | .index base _ => chainRoot base
  | .attempt e => chainRoot e
  | .await e => chainRoot e
  | .paren e => chainRoot e
  | e => e

/-- The methods called along a chain, the outermost first. -/
def chainMethods : Expr → List String
  | .method receiver name _ _ => name :: chainMethods receiver
  | .field base => chainMethods base
  | .index base _ => chainMethods base
  | .attempt e => chainMethods e
  | .await e => chainMethods e
  | .paren e => chainMethods e
  | _ => []

def localName? : Expr → Option String
  | .path path _ => path.ident?
  | _ => none

end ApiContract.Handler
