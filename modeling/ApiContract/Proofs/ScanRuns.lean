import ApiContract.Handler.Scan

namespace ApiContract.Handler.Scan

open Source

variable {c c' : Context} {parameters parameters' : List Parameter} {R : Scan → Scan → Prop}

/-- What stands between two passes is kept when both take the same step. -/
structure Kept (c c' : Context) (parameters parameters' : List Parameter) (R : Scan → Scan → Prop) :
    Prop where
  record : ∀ {s s' : Scan}, R s s' → ∀ e, R (s.record c parameters e) (s'.record c' parameters' e)
  recordEmpty : ∀ {s s' : Scan}, R s s' → R s.recordEmpty s'.recordEmpty
  bind : ∀ {s s' : Scan},
      R s s' → ∀ name e, R (s.bind c parameters name e) (s'.bind c' parameters' name e)

theorem Kept.site (h : Kept c c' parameters parameters' R) {s s' : Scan} (hs : R s s') (tail : Bool)
    (e : Expr) : R (s.site c parameters tail e) (s'.site c' parameters' tail e) := by
  cases tail with
  | true => exact h.record hs e
  | false => exact hs

mutual

theorem Kept.expr (h : Kept c c' parameters parameters' R) (tail : Bool) (e : Expr) {s s' : Scan}
    (hs : R s s') : R (expr c parameters tail e s) (expr c' parameters' tail e s') := by
  match e with
  | .lit _ | .closure _ | .async _ | .json _ | .vec _ | .expansion => exact h.site hs tail _
  | .path _ inner => exact h.site (h.exprs inner hs) tail _
  | .paren e | .reference e | .negate e | .field e | .await e | .attempt e =>
    exact h.site (h.expr false e hs) tail _
  | .tuple elements | .array elements | .compound elements =>
    exact h.site (h.exprs elements hs) tail _
  | .record _ inner fieldInits rest =>
    exact h.site (h.option false rest (h.fields fieldInits (h.exprs inner hs))) tail _
  | .call callee args => exact h.site (h.exprs args (h.expr false callee hs)) tail _
  | .method receiver _ inner args =>
    exact h.site (h.exprs args (h.exprs inner (h.expr false receiver hs))) tail _
  | .index base position => exact h.site (h.expr false position (h.expr false base hs)) tail _
  | .assign left right =>
    exact h.site (h.bind (h.expr false right hs) (localName? left) right) tail _
  | .ret none => exact h.recordEmpty hs
  | .ret (some e) => exact h.record (h.expr false e hs) e
  | .branch condition body otherwise =>
    exact h.option tail otherwise (h.stmts tail body (h.expr false condition hs))
  | .cases subject alternatives => exact h.arms tail alternatives (h.expr false subject hs)
  | .block body | .unchecked body => exact h.stmts tail body hs

theorem Kept.exprs (h : Kept c c' parameters parameters' R) (es : List Expr) {s s' : Scan}
    (hs : R s s') : R (exprs c parameters es s) (exprs c' parameters' es s') := by
  match es with
  | [] => exact hs
  | e :: rest => exact h.exprs rest (h.expr false e hs)

theorem Kept.option (h : Kept c c' parameters parameters' R) (tail : Bool) (e : Option Expr)
    {s s' : Scan} (hs : R s s') :
    R (option c parameters tail e s) (option c' parameters' tail e s') := by
  match e with
  | none => exact hs
  | some e => exact h.expr tail e hs

theorem Kept.fields (h : Kept c c' parameters parameters' R) (inits : List FieldInit) {s s' : Scan}
    (hs : R s s') : R (fields c parameters inits s) (fields c' parameters' inits s') := by
  match inits with
  | [] => exact hs
  | .mk _ e :: rest => exact h.fields rest (h.expr false e hs)

theorem Kept.arms (h : Kept c c' parameters parameters' R) (tail : Bool) (alternatives : List Arm)
    {s s' : Scan} (hs : R s s') :
    R (arms c parameters tail alternatives s) (arms c' parameters' tail alternatives s') := by
  match alternatives with
  | [] => exact hs
  | .mk inner guard body :: rest =>
    exact h.arms tail rest (h.expr tail body (h.option false guard (h.exprs inner hs)))

theorem Kept.stmts (h : Kept c c' parameters parameters' R) (tail : Bool) (body : List Stmt)
    {s s' : Scan} (hs : R s s') :
    R (stmts c parameters tail body s) (stmts c' parameters' tail body s') := by
  match body with
  | [] => exact hs
  | .bind _ _ none _ :: rest | .item _ :: rest => exact h.stmts tail rest hs
  | .bind pattern _ (some value) otherwise :: rest =>
    exact h.stmts tail rest
      (h.bind (h.option false otherwise (h.expr false value hs)) (boundName? pattern) value)
  | .expr e closed :: rest =>
    exact h.stmts tail rest (h.expr (tail && rest.isEmpty && !closed) e hs)
  | .expansion e closed :: rest =>
    exact h.stmts tail rest (h.site hs (tail && rest.isEmpty && !closed) e)

end

theorem Kept.body (h : Kept c c' parameters parameters' R) (hs : R {} {}) (body : List Stmt) :
    R (Scan.stmts c parameters true body {}) (Scan.stmts c' parameters' true body {}) :=
  h.stmts true body hs

/-- What holds of a single pass is what stands between it and itself. -/
theorem Kept.of_steps {p : Scan → Prop} (hrecord : ∀ {s}, p s → ∀ e, p (s.record c parameters e))
    (hempty : ∀ {s}, p s → p s.recordEmpty)
    (hbind : ∀ {s}, p s → ∀ name e, p (s.bind c parameters name e)) :
    Kept c c parameters parameters fun s _ => p s where
  record hs e := hrecord hs e
  recordEmpty hs := hempty hs
  bind hs name e := hbind hs name e

end ApiContract.Handler.Scan
