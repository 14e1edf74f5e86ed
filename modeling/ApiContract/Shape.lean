import ApiContract.Json.Basic

namespace ApiContract

inductive Shape where
  /-- A value known from the source. -/
  | literal (value : Json)
  /-- Output of a transformer applied to a source. -/
  | wrapped (transformer : String) (collection paginated : Bool) (source : Shape)
  /-- A value of a named type, not transformed. -/
  | raw (type : String) (collection paginated : Bool)
  | unresolved

instance : Inhabited Shape := ⟨.unresolved⟩

namespace Shape

def ofType (type : String) : Shape := raw type false false

def isPaginated : Shape → Bool
  | wrapped _ _ paginated _ => paginated
  | raw _ _ paginated => paginated
  | _ => false

def paginate : Shape → Shape
  | wrapped transformer _ _ source => wrapped transformer true true source
  | raw type _ _ => raw type true true
  | shape => shape

end Shape

structure Response where
  status : Nat
  shape : Shape

namespace Response

/-- 200 and 201 come first, then the other successes, then all else. -/
def statusRank (status : Nat) : Nat :=
  if status = 200 ∨ status = 201 then 0 else if 202 ≤ status ∧ status ≤ 299 then 1 else 2

/-- Transformed output comes first, then literals, then all else. -/
def shapeRank : Shape → Nat
  | .wrapped .. => 0
  | .literal _ => 1
  | _ => 2

def before (a b : Response) : Bool :=
  statusRank a.status < statusRank b.status ||
    (statusRank a.status = statusRank b.status && shapeRank a.shape < shapeRank b.shape)

def select : List Response → Option Response
  | [] => none
  | r :: rest =>
    match select rest with
    | none => some r
    | some best => if before best r then some best else some r

end Response

end ApiContract
