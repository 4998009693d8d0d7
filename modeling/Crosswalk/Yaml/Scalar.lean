/-
  Crosswalk.Yaml.Scalar
  ──────────────────────────────────────
  **WHAT A PLAIN SCALAR MEANS.**

  A scalar without quotes is null, a truth value or a number when it looks
  like one, and a text otherwise.  Digits with a needless zero in front are a
  text.  Numbers may be hexadecimal, octal or binary.
-/
import Crosswalk.Number.Layout

namespace Crosswalk.Yaml

/-! ## §1. Meanings. -/

/-- The meaning of a plain scalar. -/
inductive Meaning
  | null
  | bool (b : Bool)
  /-- An integer of at most 64 bits. -/
  | integer (i : Int)
  /-- An integer of more bits, read without or with a sign. -/
  | wideInteger (i : Int) (signed : Bool)
  | float (negative : Bool) (x : Number.Magnitude)
  | infinity (negative : Bool)
  | notANumber
  | text
  deriving DecidableEq, Repr

/-- The spellings of null. -/
def isNull (s : Text) : Bool :=
  s == "~".toList || s == "null".toList || s == "Null".toList || s == "NULL".toList

/-- The truth value that a text spells. -/
def bool? (s : Text) : Option Bool :=
  if s = "true".toList ∨ s = "True".toList ∨ s = "TRUE".toList then some true
  else if s = "false".toList ∨ s = "False".toList ∨ s = "FALSE".toList then some false
  else none

/-! ## §2. Integers. -/

/-- A sign. -/
def isSign (c : Char) : Bool :=
  c == '+' || c == '-'

/-- A text without one sign in front. -/
def dropSign (s : Text) : Text :=
  match s with
  | c :: rest => if isSign c then rest else s
  | [] => []

/-- Two digits or more of which the first is a zero, possibly behind a sign. -/
def isPaddedNumber (s : Text) : Bool :=
  match dropSign s with
  | '0' :: c :: rest => (c :: rest).all Char.isDigit
  | _ => false

/-- The digits behind the mark of a base, with their base. -/
def basedDigits? (s : Text) : Option (Nat × Text) :=
  match s with
  | '0' :: 'x' :: rest => some (16, rest)
  | '0' :: 'o' :: rest => some (8, rest)
  | '0' :: 'b' :: rest => some (2, rest)
  | _ => none

/-- An integer in decimal digits, or in those of a base behind its mark. -/
def magnitude? (bound : Nat) (padded : Bool) (s : Text) : Option Nat :=
  let based := (basedDigits? s).bind (fun (base, ds) => Text.natural? base ds)
  ((based.filter (· ≤ bound)).or
    (if padded then none else (Text.natural? 10 s).filter (· ≤ bound)))

/-- A number without a minus sign. -/
def unsigned? (bound : Nat) (s : Text) : Option Int :=
  (magnitude? bound (isPaddedNumber s) (Text.dropLead ['+'] s)).map Int.ofNat

/-- A number of so many bits that may have a minus sign. -/
def negative? (bits : Nat) (s : Text) : Option Int :=
  match s with
  | '-' :: rest =>
    (magnitude? (Nat.pow 2 (bits - 1)) (isPaddedNumber s) rest).map (fun n => -(n : Int))
  | _ => none

/-! ## §3. Floating-point numbers. -/

/-- The powers of ten beyond which a number is zero or infinite, however many digits it has. -/
def greatestScale : Nat := 400

/-- The magnitude of `digits · 10 ^ power`; `none` when it is too large. -/
def scaled? (digits : Text) (power : Int) : Option Number.Magnitude :=
  let n := (Text.natural? 10 digits).getD 0
  let size := power + (Text.ofNat n).length
  if n = 0 ∨ size < -greatestScale then some Number.Magnitude.zero
  else if greatestScale < size then none
  else if 0 ≤ power then Number.Magnitude.ofRatio (n * Nat.pow 10 power.toNat) 1
  else Number.Magnitude.ofRatio n (Nat.pow 10 (-power).toNat)

/-- Reads an exponent: nothing, or an `e` with an integer. -/
def exponent? (s : Text) : Option Int :=
  match s with
  | [] => some 0
  | c :: rest =>
    if c = 'e' ∨ c = 'E' then
      match rest with
      | '-' :: ds => (Text.natural? 10 ds).map (fun n => -(n : Int))
      | _ => (Text.natural? 10 (Text.dropLead ['+'] rest)).map Int.ofNat
    else none

/-- Reads a decimal without a sign: digits, possibly with a point, and an exponent. -/
def decimal? (s : Text) : Option Number.Magnitude :=
  let whole := s.takeWhile Char.isDigit
  let rest := s.dropWhile Char.isDigit
  let (fraction, rest) := match rest with
    | '.' :: more => (more.takeWhile Char.isDigit, more.dropWhile Char.isDigit)
    | _ => ([], rest)
  if whole.isEmpty && fraction.isEmpty then none
  else (exponent? rest).bind (fun e => scaled? (whole ++ fraction) (e - fraction.length))

/-- The spellings of infinity. -/
def isInfinity (s : Text) : Bool :=
  s == ".inf".toList || s == ".Inf".toList || s == ".INF".toList

/-- The spellings of what is not a number. -/
def isNotANumber (s : Text) : Bool :=
  s == ".nan".toList || s == ".NaN".toList || s == ".NAN".toList

/-- The floating-point number that a text spells. -/
def float? (s : Text) : Option Meaning :=
  if isNotANumber s then some .notANumber
  else
    match s with
    | '+' :: rest =>
      if isInfinity rest then some (.infinity false) else (decimal? rest).map (.float false)
    | '-' :: rest =>
      if isInfinity rest then some (.infinity true) else (decimal? rest).map (.float true)
    | _ => if isInfinity s then some (.infinity false) else (decimal? s).map (.float false)

/-! ## §4. All together. -/

/-- The integer that a text spells. -/
def integer? (s : Text) : Option Meaning :=
  (((unsigned? (Nat.pow 2 64 - 1) s).or (negative? 64 s)).map .integer).or
    (((unsigned? (Nat.pow 2 128 - 1) s).map (.wideInteger · false)).or
      ((negative? 128 s).map (.wideInteger · true)))

/-- The meaning of a plain scalar. -/
def meaning (s : Text) : Meaning :=
  if s.isEmpty || isNull s then .null
  else
    match bool? s with
    | some b => .bool b
    | none =>
      ((integer? s).or (if isPaddedNumber s then none else float? s)).getD .text

end Crosswalk.Yaml
