/-
  Crosswalk.Proofs.Transform.Stamp
  ──────────────────────────────────────
  **INSTANTS AS THEY ARE STAMPED.**

  A full stamp holds the parts of an instant in decimal digits, each in its
  width, down to the millisecond:

    • `IsStamp`: the text of an instant, part by part,
    • `IsStamp.unique`: an instant has one stamp at most,
    • `fixed_padded`, `hasFields`: the digits of the fields,
    • `stamp_full`: every instant of a clock has its stamp.
-/
import Crosswalk.Proofs.Calendar.Instant
import Crosswalk.Proofs.Text.Numeral
import Crosswalk.Transform.Evaluate

namespace Crosswalk.Transform

open Calendar

/-! ## §1. The text of an instant. -/

/-- The digits of a year: as many as it has, and at least four. -/
def yearDigits (year : Int) : Nat :=
  max 4 (Text.ofNat year.natAbs).length

/-- The date and the time of day in digits, up to the millisecond, with a minus sign before a
negative year. -/
inductive IsStamp (t : Instant) : Text → Prop
  | intro {year month day hour minute second milli : Text}
      (hyear : Text.Fixed (yearDigits t.date.year) year t.date.year.natAbs)
      (hmonth : Text.Fixed 2 month t.date.month)
      (hday : Text.Fixed 2 day t.date.day)
      (hhour : Text.Fixed 2 hour t.hour)
      (hminute : Text.Fixed 2 minute t.minute)
      (hsecond : Text.Fixed 2 second t.second)
      (hmilli : Text.Fixed 3 milli (t.fraction / 10 ^ 6)) :
      IsStamp t ((if t.date.year < 0 then ['-'] else []) ++ year ++ '-' :: month ++ '-' :: day
        ++ 'T' :: hour ++ ':' :: minute ++ ':' :: second ++ '.' :: milli ++ ['Z'])

/-- **There is one text for an instant.** -/
theorem IsStamp.unique {t : Instant} {a b : Text} (ha : IsStamp t a) (hb : IsStamp t b) :
    a = b := by
  obtain ⟨hyear, hmonth, hday, hhour, hminute, hsecond, hmilli⟩ := ha
  obtain ⟨hyear', hmonth', hday', hhour', hminute', hsecond', hmilli'⟩ := hb
  rw [hyear.unique hyear', hmonth.unique hmonth', hday.unique hday', hhour.unique hhour',
    hminute.unique hminute', hsecond.unique hsecond', hmilli.unique hmilli']

/-! ## §2. Stamps. -/

/-- **The digits of a field** of a number that is small enough for its width. -/
theorem fixed_padded {width n : Nat} (hwidth : 0 < width) (hn : n < 10 ^ width) :
    Text.Fixed width (padded width n) n := by
  have hpadded : padded width n = Text.padZero width (Text.ofNat n) := by
    unfold padded
    rw [if_neg (by omega), Int.natAbs_natCast]
    rfl
  rw [hpadded]
  exact Text.fixed_padZero_of_lt hwidth hn

/-- The fields of a stamp but for the year, each in its width. -/
structure HasFields (t : Instant) : Prop where
  month : Text.Fixed 2 (padded 2 t.date.month) t.date.month
  day : Text.Fixed 2 (padded 2 t.date.day) t.date.day
  hour : Text.Fixed 2 (padded 2 t.hour) t.hour
  minute : Text.Fixed 2 (padded 2 t.minute) t.minute
  second : Text.Fixed 2 (padded 2 t.second) t.second
  milli : Text.Fixed 3 ((padded 9 t.fraction).take 3) (t.fraction / 10 ^ 6)

/-- **The fields of an instant of a clock are small enough for their widths.** -/
theorem hasFields {t : Instant} (h : t.IsInstant) : HasFields t := by
  have hmonth := h.date.month_le
  have hday := Nat.le_trans h.date.day_le (Date.daysInMonth_le _ _)
  have hhour := h.hour
  have hminute := h.minute
  have hsecond := h.second
  have hfraction : t.fraction < 10 ^ 9 := t.fraction_lt
  exact {
    month := fixed_padded (by decide) (by omega)
    day := fixed_padded (by decide) (by omega)
    hour := fixed_padded (by decide) (by omega)
    minute := fixed_padded (by decide) (by omega)
    second := fixed_padded (by decide) (by omega)
    -- the milliseconds are the first three digits of the nanoseconds
    milli := (fixed_padded (by decide) hfraction).take (by decide) (by decide) }

theorem format_full (t : Instant) : format t fullStamp = .ok (padded 4 t.date.year
    ++ '-' :: padded 2 t.date.month ++ '-' :: padded 2 t.date.day ++ 'T' :: padded 2 t.hour
    ++ ':' :: padded 2 t.minute ++ ':' :: padded 2 t.second
    ++ '.' :: (padded 9 t.fraction).take 3 ++ ['Z']) := by
  have hparts : parts false fullStamp = [.field 'y' 4, .literal '-', .field 'M' 2, .literal '-',
      .field 'd' 2, .literal 'T', .field 'H' 2, .literal ':', .field 'm' 2, .literal ':',
      .field 's' 2, .literal '.', .field 'S' 3, .literal 'Z'] := by decide
  unfold format
  rw [hparts]
  simp [writeParts, Part.write, fieldText?, yearField, monthField, numberUpTo]
  rfl

/-- **Every instant of a clock has its full stamp.** -/
theorem stamp_full {t : Instant} (h : t.IsInstant) :
    ∃ text, stamp t fullStamp = .ok text ∧ IsStamp t text := by
  have hfields := hasFields h
  refine ⟨_, ?_, .intro (Text.fixed_padZero 4 t.date.year.natAbs) hfields.month hfields.day
    hfields.hour hfields.minute hfields.second hfields.milli⟩
  show (format t fullStamp).mapError (.pattern fullStamp) = _
  rw [format_full]
  rfl

end Crosswalk.Transform
