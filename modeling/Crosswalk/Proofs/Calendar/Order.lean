/-
  Crosswalk.Proofs.Calendar.Order
  ──────────────────────────────────────
  **DATES AND INSTANTS IN ORDER.**

  Of two dates the one with the smaller year is earlier, in one year the one
  with the smaller month, and in one month the one with the smaller day.  The
  numbers of the days have the same order, though the years that they count
  begin in March and leap days lie between:

    • `marchStart_le`, `toDays_lt_of_marchYear`: years that begin in March,
    • `toDays_lt`, `compare_toDays`: dates,
    • `compare_wholeSeconds`, `compare_wholeMilliseconds`: instants.
-/
import Crosswalk.Proofs.Calendar.Instant
import Crosswalk.Proofs.Text.Order

namespace Crosswalk.Calendar

/-! ## §1. Dates. -/

namespace Date

variable {d e : Date} {year year' : Int}

/-- The day on which a year begins in March, counted from the year 0. -/
def marchStart (year : Int) : Int :=
  year / 400 * cycle + yearStart (year % 400)

theorem toDays_eq_marchStart (d : Date) :
    d.toDays = marchStart d.marchYear + d.dayFromMarch - epoch := by
  rw [toDays_eq, ← Int.add_assoc]
  rfl

/-- A year that begins in March has 365 days, or 366 when it ends with a leap day. -/
theorem marchStart_succ (year : Int) : marchStart (year + 1)
    = marchStart year + if isLeap (year + 1) = true then 366 else 365 := by
  have h := yearStart_succ (year + 1)
  rwa [Int.add_sub_cancel] at h

/-- A later year begins later. -/
theorem marchStart_le (h : year ≤ year') : marchStart year ≤ marchStart year' := by
  induction year', h using Int.leInduction with
  | base => exact Int.le_refl _
  | succ n _ ih =>
      rw [marchStart_succ]
      split <;> omega

/-- **The days of a year come before those of a later year.** -/
theorem toDays_lt_of_marchYear (hd : d.IsDate) (he : e.IsDate) (h : d.marchYear < e.marchYear) :
    d.toDays < e.toDays := by
  have hnext : marchStart (d.marchYear + 1) ≤ marchStart e.marchYear := marchStart_le h
  have hfirst := (inMarchYear_dayFromMarch he).first
  rw [toDays_eq_marchStart, toDays_eq_marchStart]
  rw [marchStart_succ] at hnext
  -- a day 366 is there only when the year ends with a leap day
  rcases (inMarchYear_dayFromMarch hd).last with hlast | ⟨hlast, hleap⟩
  · split at hnext <;> omega
  · rw [if_pos hleap] at hnext
    omega

/-- In one year the days of a month come before those of a later month. -/
theorem dayFromMarch_lt (hd : d.IsDate) (he : e.IsDate) (h : d.monthFromMarch < e.monthFromMarch) :
    d.dayFromMarch < e.dayFromMarch := by
  have hend := day_le_monthEnd hd
  have hpos := he.day_pos
  unfold dayFromMarch
  omega

/-- **An earlier date has a smaller number.** -/
theorem toDays_lt (hd : d.IsDate) (he : e.IsDate)
    (h : d.year < e.year ∨ d.year = e.year ∧ (d.month < e.month
      ∨ d.month = e.month ∧ d.day < e.day)) : d.toDays < e.toDays := by
  have hmonth := hd.month_le
  have hmonth' := he.month_pos
  -- January and February belong to the year that began in March before
  have hmarch : d.marchYear < e.marchYear ∨ d.marchYear = e.marchYear
      ∧ (d.monthFromMarch < e.monthFromMarch
        ∨ d.monthFromMarch = e.monthFromMarch ∧ d.day < e.day) := by
    unfold marchYear monthFromMarch
    split <;> split <;> omega
  rcases hmarch with hyear | ⟨hyear, hmonths | ⟨hmonths, hday⟩⟩
  · exact toDays_lt_of_marchYear hd he hyear
  · have hlt := dayFromMarch_lt hd he hmonths
    rw [toDays_eq_marchStart, toDays_eq_marchStart, hyear]
    omega
  · rw [toDays_eq_marchStart, toDays_eq_marchStart, hyear, dayFromMarch, dayFromMarch, hmonths]
    omega

/-- **Dates are ordered by year, month and day.** -/
theorem compare_toDays (hd : d.IsDate) (he : e.IsDate) : compare d.toDays e.toDays
    = ((compare d.year e.year).then (compare d.month e.month)).then (compare d.day e.day) := by
  rcases Int.lt_trichotomy d.year e.year with hlt | hyear | hgt
  · rw [Int.compare_eq_lt.mpr (toDays_lt hd he (.inl hlt)), Int.compare_eq_lt.mpr hlt]
    rfl
  · rw [Int.compare_eq_eq.mpr hyear, Ordering.eq_then]
    rcases Nat.lt_trichotomy d.month e.month with hlt | hmonth | hgt
    · rw [Int.compare_eq_lt.mpr (toDays_lt hd he (.inr ⟨hyear, .inl hlt⟩)),
        Nat.compare_eq_lt.mpr hlt]
      rfl
    · rw [Nat.compare_eq_eq.mpr hmonth, Ordering.eq_then]
      rcases Nat.lt_trichotomy d.day e.day with hlt | hday | hgt
      · rw [Int.compare_eq_lt.mpr (toDays_lt hd he (.inr ⟨hyear, .inr ⟨hmonth, hlt⟩⟩)),
          Nat.compare_eq_lt.mpr hlt]
      · have hsame : d = e := by
          obtain ⟨y, m, n⟩ := d
          obtain ⟨y', m', n'⟩ := e
          simp only [Date.mk.injEq]
          exact ⟨hyear, hmonth, hday⟩
        rw [hsame, Int.compare_eq_eq.mpr rfl, Nat.compare_eq_eq.mpr rfl]
      · rw [Int.compare_eq_gt.mpr (toDays_lt he hd (.inr ⟨hyear.symm, .inr ⟨hmonth.symm, hgt⟩⟩)),
          Nat.compare_eq_gt.mpr hgt]
    · rw [Int.compare_eq_gt.mpr (toDays_lt he hd (.inr ⟨hyear.symm, .inl hgt⟩)),
        Nat.compare_eq_gt.mpr hgt]
      rfl
  · rw [Int.compare_eq_gt.mpr (toDays_lt he hd (.inl hgt)), Int.compare_eq_gt.mpr hgt]
    rfl

end Date

/-! ## §2. Instants. -/

namespace Instant

variable {s t : Instant}

/-- The nanoseconds since day 0 began. -/
def nanoseconds (t : Instant) : Int :=
  (t.date.toDays * secondsPerDay + t.secondOfDay) * nanosPerSecond + t.nanosecond

/-- The full seconds since day 0 began. -/
def wholeSeconds (t : Instant) : Int :=
  t.nanoseconds / 10 ^ 9

/-- The full milliseconds since day 0 began. -/
def wholeMilliseconds (t : Instant) : Int :=
  t.nanoseconds / 10 ^ 6

/-- Outside of leap seconds the fraction is all that follows the full second. -/
theorem fraction_eq (hleap : t.inLeapSecond = false) : t.fraction = t.nanosecond := by
  unfold inLeapSecond at hleap
  exact Nat.mod_eq_of_lt (by simpa using hleap)

theorem wholeSeconds_eq (hleap : t.inLeapSecond = false) : t.wholeSeconds
    = ((t.date.toDays * 24 + t.hour) * 60 + t.minute) * 60 + t.second := by
  have hfraction := t.fraction_lt
  rw [fraction_eq hleap] at hfraction
  unfold wholeSeconds nanoseconds secondOfDay secondsPerDay nanosPerSecond at *
  omega

theorem wholeMilliseconds_eq (hleap : t.inLeapSecond = false) :
    t.wholeMilliseconds = t.wholeSeconds * 1000 + (t.fraction / 10 ^ 6 : Nat) := by
  have hfraction := t.fraction_lt
  rw [fraction_eq hleap] at hfraction ⊢
  unfold wholeMilliseconds wholeSeconds nanoseconds nanosPerSecond at *
  omega

/-- **Instants of full seconds are ordered by date, hour, minute and second.** -/
theorem compare_wholeSeconds (hs : s.IsInstant) (ht : t.IsInstant) (hsleap : s.inLeapSecond = false)
    (htleap : t.inLeapSecond = false) : compare s.wholeSeconds t.wholeSeconds
      = (((compare s.date.toDays t.date.toDays).then (compare s.hour t.hour)).then
        (compare s.minute t.minute)).then (compare s.second t.second) := by
  have hhour := hs.hour
  have hhour' := ht.hour
  have hminute := hs.minute
  have hminute' := ht.minute
  have hsecond := hs.second
  have hsecond' := ht.second
  rw [wholeSeconds_eq hsleap, wholeSeconds_eq htleap, Text.compare_mul_add (by omega) (by omega),
    Text.compare_mul_add (by omega) (by omega), Text.compare_mul_add (by omega) (by omega),
    Text.compare_natCast, Text.compare_natCast, Text.compare_natCast]

/-- **In one second the milliseconds decide.** -/
theorem compare_wholeMilliseconds (hsleap : s.inLeapSecond = false)
    (htleap : t.inLeapSecond = false) : compare s.wholeMilliseconds t.wholeMilliseconds
      = (compare s.wholeSeconds t.wholeSeconds).then
        (compare (s.fraction / 10 ^ 6) (t.fraction / 10 ^ 6)) := by
  have hfraction := s.fraction_lt
  have hfraction' := t.fraction_lt
  unfold nanosPerSecond at hfraction hfraction'
  rw [wholeMilliseconds_eq hsleap, wholeMilliseconds_eq htleap,
    Text.compare_mul_add (by omega) (by omega), Text.compare_natCast]

end Instant

end Crosswalk.Calendar
