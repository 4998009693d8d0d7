/-
  Crosswalk.Number.Double
  ──────────────────────────────────────
  **MAGNITUDES OF 64-BIT FLOATING-POINT NUMBERS.**

  A magnitude is `mantissa · 2 ^ exponent` with fewer than 54 bits in the
  mantissa and an exponent of at least -1074.  All arithmetic is exact and
  rounds once, to the nearest magnitude, at a tie to the even mantissa.  A
  result above the largest magnitude is `none`.
-/

namespace Crosswalk.Number

/-- The number `mantissa · 2 ^ exponent`. -/
structure Magnitude where
  mantissa : Nat
  exponent : Int
  deriving DecidableEq, Repr

namespace Magnitude

/-- The least exponent of a magnitude. -/
def leastExponent : Int := -1074

/-- The greatest exponent of a magnitude. -/
def greatestExponent : Int := 971

/-- The number of values of the mantissa. -/
def mantissaBound : Nat := Nat.pow 2 53

/-- Zero. -/
def zero : Magnitude := ⟨0, leastExponent⟩

/-- The quotient rounded to the nearest integer, at a tie to the even one. -/
def roundQuotient (num den : Nat) : Nat :=
  let q := num / den
  let r := num % den
  if 2 * r < den then q else if 2 * r > den then q + 1 else q + q % 2

/-- The ratio `num / den` as a multiple of `2 ^ e`: the new ratio. -/
def scale (num den : Nat) (e : Int) : Nat × Nat :=
  if e < 0 then (num * Nat.pow 2 (-e).toNat, den) else (num, den * Nat.pow 2 e.toNat)

/-- The magnitude nearest to the ratio of two numbers, the second one not zero. -/
def ofRatio (num den : Nat) : Option Magnitude :=
  if num = 0 then some zero
  else
    let guess := max leastExponent ((Nat.log2 num : Int) - Nat.log2 den - 52)
    let (n, d) := scale num den guess
    let e := if n / d < Nat.pow 2 52 ∧ leastExponent < guess then guess - 1 else guess
    let (n, d) := scale num den e
    let m := roundQuotient n d
    let (m, e) := if m = mantissaBound then (Nat.pow 2 52, e + 1) else (m, e)
    if greatestExponent < e then none else some ⟨m, e⟩

/-- The exact value as a ratio. -/
def ratio (x : Magnitude) : Nat × Nat :=
  if x.exponent < 0 then (x.mantissa, Nat.pow 2 (-x.exponent).toNat)
  else (x.mantissa * Nat.pow 2 x.exponent.toNat, 1)

/-- The rounded product. -/
def mul (x y : Magnitude) : Option Magnitude :=
  ofRatio (x.ratio.1 * y.ratio.1) (x.ratio.2 * y.ratio.2)

/-- The rounded quotient, the divisor not zero. -/
def div (x y : Magnitude) : Option Magnitude :=
  ofRatio (x.ratio.1 * y.ratio.2) (x.ratio.2 * y.ratio.1)

/-- The magnitude nearest to a power of ten that has one. -/
def powerOfTen (n : Nat) : Magnitude :=
  (ofRatio (Nat.pow 10 n) 1).getD zero

end Magnitude

end Crosswalk.Number
