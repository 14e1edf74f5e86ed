import ApiContract.Decimal.Shortest

namespace ApiContract.Decimal

def power (n : Nat) : Float := Float.ofScientific 1 false n

/-- Below the least power the value is divided down by the greatest one, until it is zero or within
reach. A value above the greatest fraction has no reading. -/
def scaleFrom (x : Float) (e : Int) : Nat → Option Float
  | 0 => some x
  | fuel + 1 =>
    if e.natAbs ≤ 308 then
      if 0 ≤ e then
        let y := x * power e.natAbs
        if y.isInf then none else some y
      else some (x / power e.natAbs)
    else if x == 0 then some x
    else if 0 ≤ e then none
    else scaleFrom (x / power 308) (e + 308) fuel

/-- A decimal read by one scaling step with a power of ten that is itself rounded. Short decimals
come out exact; long ones may miss the nearest fraction by one place. -/
def scale (digits : Nat) (e : Int) : Option Float :=
  scaleFrom (Float.ofNat digits) e (e.natAbs / 308 + 2)

end ApiContract.Decimal
