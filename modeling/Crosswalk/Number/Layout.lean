/-
  Crosswalk.Number.Layout
  ──────────────────────────────────────
  **HOW NUMBERS ARE LAID OUT.**

  A floating-point number always shows a point or an exponent.  A layout says
  which numbers are written out in full; the others have one digit before the
  point and an exponent.
-/
import Crosswalk.Number.Shortest
import Crosswalk.Text.Basic

namespace Crosswalk.Number

/-- The bounds of a layout. -/
structure Layout where
  /-- With the point after so many digits or fewer, a number is written out in full. -/
  mostDigitsBefore : Int
  /-- With so many zeros or fewer after the point, a number is written out in full. -/
  mostZerosAfter : Int
  /-- The sign of an exponent that is not negative. -/
  plusSign : Text
  deriving DecidableEq, Repr

/-- The digits without trailing zeros, and the power of the last one. -/
def significant (digits : Text) (power : Int) : Text × Int :=
  let kept := (digits.reverse.dropWhile (· == '0')).reverse
  (kept, power + (digits.length - kept.length : Nat))

/-- A decimal in a layout. -/
def Layout.decimal (l : Layout) (d : Decimal) : Text :=
  let (digits, power) := significant (Text.ofNat d.coefficient) d.power
  let point : Int := digits.length + power
  if 0 ≤ power ∧ point ≤ l.mostDigitsBefore then
    digits ++ List.replicate power.toNat '0' ++ ".0".toList
  else if 0 < point ∧ point ≤ l.mostDigitsBefore then
    digits.take point.toNat ++ '.' :: digits.drop point.toNat
  else if -l.mostZerosAfter ≤ point ∧ point ≤ 0 then
    "0.".toList ++ List.replicate (-point).toNat '0' ++ digits
  else
    let exponent := point - 1
    let mantissa := match digits with
      | [] => []
      | [c] => [c]
      | c :: cs => c :: '.' :: cs
    mantissa ++ 'e' :: (if exponent < 0 then [] else l.plusSign) ++ Text.ofInt exponent

/-- A magnitude in a layout. -/
def Layout.magnitude (l : Layout) (x : Magnitude) : Text :=
  if x.mantissa = 0 then "0.0".toList else l.decimal x.shortest

/-- The layout without exponents. -/
def Layout.positional : Layout := ⟨400, 400, []⟩

end Crosswalk.Number
