import ApiContract.Decimal.Shortest

namespace ApiContract.Decimal

/-- The fraction nearest to `digits * 10 ^ exponent`; one out of reach has none. Where the power of
ten alone decides, it is not computed. -/
def nearest? (digits : Nat) (exponent : Int) : Option Float :=
  let magnitude : Int := (Nat.repr digits).length + exponent
  if digits = 0 ∨ magnitude < -330 then some 0
  else if 310 < magnitude then none
  else
    let x := Float.ofScientific digits (exponent < 0) exponent.natAbs
    if x.isFinite then some x else none

end ApiContract.Decimal
