/-
  Crosswalk.Number.Shortest
  ──────────────────────────────────────
  **THE FEWEST DIGITS THAT READ BACK.**

  The reals that round to a magnitude form an interval; its ends belong to
  it when the mantissa is even.  For 1, 2, … 17 digits `shortest` tests the
  two neighbours of the value on the grid of decimals with so many digits:
  the first grid with a neighbour in the interval wins, of two the nearer.
-/
import Crosswalk.Number.Double

namespace Crosswalk.Number

/-- The decimal `coefficient · 10 ^ power`. -/
structure Decimal where
  coefficient : Nat
  power : Int
  deriving DecidableEq, Repr

/-- Four times the lower end, the value and the upper end of the interval, over one denominator. -/
structure Interval where
  low : Nat
  value : Nat
  high : Nat
  den : Nat
  /-- The ends belong to the interval. -/
  closed : Bool

/-- The interval of a magnitude.  Below a power of two the lower neighbour is half as far. -/
def Magnitude.interval (x : Magnitude) : Interval :=
  let below := if x.mantissa = Nat.pow 2 52 ∧ Magnitude.leastExponent < x.exponent then 1 else 2
  let unit := if x.exponent < 0 then 1 else Nat.pow 2 x.exponent.toNat
  ⟨(4 * x.mantissa - below) * unit, 4 * x.mantissa * unit, (4 * x.mantissa + 2) * unit,
    if x.exponent < 0 then 4 * Nat.pow 2 (-x.exponent).toNat else 4, x.mantissa % 2 == 0⟩

/-- The point `k` of the grid `10 ^ g`, times the denominator, and the factor that the ends of the
interval are to be multiplied by. -/
def Interval.point (i : Interval) (g : Int) (k : Nat) : Nat × Nat :=
  if g < 0 then (k * i.den, Nat.pow 10 (-g).toNat) else (k * Nat.pow 10 g.toNat * i.den, 1)

/-- The point of the grid lies in the interval. -/
def Interval.holds (i : Interval) (g : Int) (k : Nat) : Bool :=
  let (p, f) := i.point g k
  if i.closed then i.low * f ≤ p && p ≤ i.high * f else i.low * f < p && p < i.high * f

/-- The lower neighbour of the value on the grid. -/
def Interval.floor (i : Interval) (g : Int) : Nat :=
  if g < 0 then i.value * Nat.pow 10 (-g).toNat / i.den
  else i.value / (i.den * Nat.pow 10 g.toNat)

/-- The neighbour of the value on the grid that lies in the interval, the nearer of two. -/
def Interval.onGrid (i : Interval) (g : Int) : Option Decimal :=
  let k := i.floor g
  match i.holds g k, i.holds g (k + 1) with
  | false, false => none
  | true, false => some ⟨k, g⟩
  | false, true => some ⟨k + 1, g⟩
  | true, true =>
    let (p, f) := i.point g (2 * k + 1)
    if p < 2 * i.value * f ∨ (p = 2 * i.value * f ∧ k % 2 = 1) then some ⟨k + 1, g⟩
    else some ⟨k, g⟩

/-- The power of ten of the leading digit. -/
def Interval.lead (i : Interval) : Int :=
  if i.den ≤ i.value then (Nat.toDigits 10 (i.value / i.den)).length - 1
  else
    let d := (Nat.toDigits 10 (i.den / i.value)).length
    if i.value * Nat.pow 10 (d - 1) < i.den then -(d : Int) else -((d : Int) - 1)

/-- The shortest decimal that reads back as a magnitude other than zero. -/
def Magnitude.shortest (x : Magnitude) : Decimal :=
  let i := x.interval
  ((List.range 17).findSome? (fun (n : Nat) => i.onGrid (i.lead - n))).getD ⟨i.value, 0⟩

end Crosswalk.Number
