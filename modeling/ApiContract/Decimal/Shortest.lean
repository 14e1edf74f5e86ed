namespace ApiContract

structure Decimal where
  digits : Nat
  exponent : Int
deriving DecidableEq, Repr

namespace Decimal

/-- A positive binary fraction `mantissa * 2 ^ exponent`, with the fractions on both sides: the
step below is half as wide when the mantissa is the least of its binade. -/
structure Binary where
  mantissa : Nat
  exponent : Int
  narrowBelow : Bool

def Binary.ofBits (bits : UInt64) : Option Binary :=
  let raw : Nat := bits.toNat % Nat.pow 2 63
  let field : Nat := raw / Nat.pow 2 52
  let fraction : Nat := raw % Nat.pow 2 52
  if field = 0 then
    if fraction = 0 then none else some ⟨fraction, -1074, false⟩
  else some ⟨fraction + Nat.pow 2 52, Int.ofNat field - 1075, fraction = 0 && 1 < field⟩

structure Ratio where
  num : Nat
  den : Nat

namespace Ratio

def scaled (n : Nat) (base : Nat) : Int → Ratio
  | .ofNat e => ⟨n * Nat.pow base e, 1⟩
  | .negSucc e => ⟨n, Nat.pow base (e + 1)⟩

def le (a b : Ratio) : Bool := a.num * b.den ≤ b.num * a.den

def lt (a b : Ratio) : Bool := a.num * b.den < b.num * a.den

def sub (a b : Ratio) : Ratio := ⟨a.num * b.den - b.num * a.den, a.den * b.den⟩

end Ratio

/-- The reals that round to the value: its ends belong to it iff the mantissa is even. -/
structure Interval where
  low : Ratio
  high : Ratio
  closed : Bool

def Binary.value (b : Binary) : Ratio := .scaled b.mantissa 2 b.exponent

def Binary.interval (b : Binary) : Interval :=
  { low := .scaled (4 * b.mantissa - if b.narrowBelow then 1 else 2) 2 (b.exponent - 2)
    high := .scaled (4 * b.mantissa + 2) 2 (b.exponent - 2)
    closed := b.mantissa % 2 = 0 }

def Interval.contains (i : Interval) (r : Ratio) : Bool :=
  if i.closed then i.low.le r && r.le i.high else i.low.lt r && r.lt i.high

def magnitude (r : Ratio) : Nat → Int → Int
  | 0, p => p
  | fuel + 1, p => if r.lt (.scaled 1 10 p) then p else magnitude r fuel (p + 1)

/-- The better of the two neighbours of `b` on the grid of multiples of `10 ^ e`, if one reads back.
Of two at the same distance the even one is taken. -/
def onGrid (b : Binary) (e : Int) : Option Nat :=
  let v := b.value
  let unit := Ratio.scaled 1 10 e
  let below := v.num * unit.den / (v.den * unit.num)
  let above := below + 1
  let place := fun (n : Nat) => Ratio.scaled n 10 e
  let inside := fun (n : Nat) => n ≠ 0 && b.interval.contains (place n)
  match inside below, inside above with
  | false, false => none
  | true, false => some below
  | false, true => some above
  | true, true =>
    let down := v.sub (place below)
    let up := (place above).sub v
    if down.lt up then some below
    else if up.lt down then some above
    else some (if below % 2 = 0 then below else above)

def search (b : Binary) (point : Int) : Nat → Nat → Decimal
  | 0, count => ⟨b.mantissa, point - count⟩
  | fuel + 1, count =>
    match onGrid b (point - count) with
    | some n => ⟨n, point - count⟩
    | none => search b point fuel (count + 1)

def dropZeros : Nat → Decimal → Decimal
  | 0, d => d
  | fuel + 1, d => if d.digits % 10 = 0 then dropZeros fuel ⟨d.digits / 10, d.exponent + 1⟩ else d

/-- The shortest decimal that reads back; seventeen digits always do. -/
def Binary.shortest (b : Binary) : Decimal :=
  let start := (b.exponent * 30103) / 100000 - 1
  let point := magnitude b.value 40 start
  dropZeros 20 (search b point 17 1)

/-- How a decimal is written. The point may stand from `least` to `greatest` places after the first
digit's position; outside that range the text has an exponent. -/
structure Layout where
  least : Int
  greatest : Int
  plusSign : Bool

/-- Positional from `1e-5` to below `1e16`, always with a point or an exponent. -/
def Layout.signed : Layout := ⟨-4, 16, true⟩

def Layout.bare : Layout := ⟨-4, 16, false⟩

def zeros (n : Nat) : List Char := List.replicate n '0'

def exponentText (plusSign : Bool) (e : Int) : List Char :=
  'e' :: (if e < 0 then ['-'] else if plusSign then ['+'] else []) ++ (Nat.repr e.natAbs).toList

def write (layout : Layout) (d : Decimal) : List Char :=
  let digits := (Nat.repr d.digits).toList
  let point : Int := digits.length + d.exponent
  if layout.least ≤ point && point ≤ layout.greatest then
    if 0 ≤ d.exponent then digits ++ zeros d.exponent.toNat ++ ['.', '0']
    else if 0 < point then digits.take point.toNat ++ '.' :: digits.drop point.toNat
    else ['0', '.'] ++ zeros (-point).toNat ++ digits
  else
    let tail := exponentText layout.plusSign (point - 1)
    match digits with
    | [d] => d :: tail
    | d :: rest => d :: '.' :: rest ++ tail
    | [] => tail

def ofFloat (layout : Layout) (x : Float) : String :=
  let bits := x.toBits
  let sign := if Nat.pow 2 63 ≤ bits.toNat then ['-'] else []
  match Binary.ofBits bits with
  | none => String.ofList (sign ++ ['0', '.', '0'])
  | some b => String.ofList (sign ++ write layout b.shortest)

end Decimal

end ApiContract
