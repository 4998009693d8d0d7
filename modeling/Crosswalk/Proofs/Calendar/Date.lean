/-
  Crosswalk.Proofs.Calendar.Date
  ──────────────────────────────────────
  **THE DAYS OF THE CALENDAR, ONE BEFORE THE OTHER.**

  `dayBefore` goes back by one day with nothing but the lengths of the months.
  Going back day by day and counting in numbers of days come to the same:

    • `IsDate`, `InUse`, `dayBefore`: dates, and the one before each,
    • `toDays_dayBefore`: its number is one less,
    • `ofDays_toDays`: a date is found again from its number,
    • `iterate_dayBefore`, `ofDays?_sub`: some days before, from numbers.
-/
import Mathlib.Logic.Function.Iterate
import Mathlib.Tactic.IntervalCases
import Crosswalk.Calendar.Date

namespace Crosswalk.Calendar.Date

variable {d : Date} {n k : Nat}

/-! ## §1. Dates, and the day before. -/

/-- The month is one of the twelve, and the day one of its days. -/
structure IsDate (d : Date) : Prop where
  month_pos : 1 ≤ d.month
  month_le : d.month ≤ 12
  day_pos : 1 ≤ d.day
  day_le : d.day ≤ daysInMonth d.year d.month

theorem isDate_iff : IsDate d
    ↔ 1 ≤ d.month ∧ d.month ≤ 12 ∧ 1 ≤ d.day ∧ d.day ≤ daysInMonth d.year d.month :=
  ⟨fun h => ⟨h.month_pos, h.month_le, h.day_pos, h.day_le⟩,
    fun h => ⟨h.1, h.2.1, h.2.2.1, h.2.2.2⟩⟩

instance : Decidable (IsDate d) :=
  decidable_of_iff _ isDate_iff.symm

/-- The year is one of those in use. -/
structure InUse (d : Date) : Prop where
  first : firstYear ≤ d.year
  last : d.year ≤ lastYear

theorem inUse_iff : InUse d ↔ firstYear ≤ d.year ∧ d.year ≤ lastYear :=
  ⟨fun h => ⟨h.first, h.last⟩, fun h => ⟨h.1, h.2⟩⟩

instance : Decidable (InUse d) :=
  decidable_of_iff _ inUse_iff.symm

/-- The day before: in the same month, or the last one of the month before. -/
def dayBefore (d : Date) : Date :=
  if 1 < d.day then { d with day := d.day - 1 }
  else if 1 < d.month then ⟨d.year, d.month - 1, daysInMonth d.year (d.month - 1)⟩
  else ⟨d.year - 1, 12, 31⟩

theorem le_daysInMonth (year : Int) (month : Nat) : 28 ≤ daysInMonth year month := by
  unfold daysInMonth
  split
  · split <;> omega
  all_goals omega

theorem daysInMonth_le (year : Int) (month : Nat) : daysInMonth year month ≤ 31 := by
  unfold daysInMonth
  split
  · split <;> omega
  all_goals omega

theorem IsDate.dayBefore (h : d.IsDate) : (dayBefore d).IsDate := by
  obtain ⟨hmonth, hmonth', hday, hday'⟩ := h
  unfold Date.dayBefore
  split
  · exact ⟨hmonth, hmonth', by simp only; omega, by simp only; omega⟩
  · split
    · refine ⟨by simp only; omega, by simp only; omega, ?_, Nat.le_refl _⟩
      exact Nat.le_trans (by omega) (le_daysInMonth d.year (d.month - 1))
    · exact ⟨by simp, by simp, by simp, by simp [daysInMonth]⟩

theorem year_dayBefore (d : Date) : (dayBefore d).year ≤ d.year := by
  unfold dayBefore
  split
  · exact Int.le_refl _
  · split
    · exact Int.le_refl _
    · simp only
      omega

/-! ## §2. Numbers of days. -/

theorem isLeap_iff (year : Int) :
    isLeap year = true ↔ year % 4 = 0 ∧ (year % 100 ≠ 0 ∨ year % 400 = 0) := by
  simp [isLeap]

/-- The days of 400 years before the given one of them. -/
def yearStart (year : Int) : Int :=
  year * 365 + year / 4 - year / 100

/-- A year has 365 days, and one more when it ends with a leap day. -/
theorem yearStart_succ (year : Int) :
    year / 400 * cycle + yearStart (year % 400)
      = (year - 1) / 400 * cycle + yearStart ((year - 1) % 400)
        + if isLeap year = true then 366 else 365 := by
  unfold yearStart cycle
  have hleap := isLeap_iff year
  split
  next h =>
    obtain ⟨hfour, hcentury⟩ := hleap.mp h
    omega
  next h =>
    rw [hleap] at h
    omega

/-- The year that a date falls into when years begin in March. -/
def marchYear (d : Date) : Int :=
  if d.month ≤ 2 then d.year - 1 else d.year

/-- The months since March. -/
def monthFromMarch (d : Date) : Int :=
  if d.month ≤ 2 then d.month + 9 else d.month - 3

/-- The days since the first of March. -/
def dayFromMarch (d : Date) : Int :=
  (153 * d.monthFromMarch + 2) / 5 + d.day - 1

theorem toDays_eq (d : Date) :
    d.toDays = d.marchYear / 400 * cycle + (yearStart (d.marchYear % 400) + d.dayFromMarch)
      - epoch := rfl

/-- Where February ends, a year that begins in March ends. -/
theorem toDays_march (year : Int) :
    toDays ⟨year, 3, 1⟩ = toDays ⟨year, 2, daysInMonth year 2⟩ + 1 := by
  have hstart := yearStart_succ year
  have hmarch : toDays ⟨year, 3, 1⟩ = year / 400 * cycle + yearStart (year % 400) - epoch := by
    simp [toDays, yearStart]
  have hfebruary : ∀ day : Nat, toDays ⟨year, 2, day⟩ = (year - 1) / 400 * cycle
      + (yearStart ((year - 1) % 400) + (337 + day - 1)) - epoch := by
    simp [toDays, yearStart]
  have hlength : daysInMonth year 2 = if isLeap year = true then 29 else 28 := rfl
  rw [hmarch, hfebruary, hlength]
  split at hstart
  next h =>
    rw [if_pos h]
    omega
  next h =>
    rw [if_neg h]
    omega

/-- **The day before has the number before.** -/
theorem toDays_dayBefore (h : d.IsDate) : (dayBefore d).toDays = d.toDays - 1 := by
  obtain ⟨year, month, day⟩ := d
  obtain ⟨hmonth, hmonth', hday, hday'⟩ := h
  simp only at hmonth hmonth' hday hday'
  by_cases hfirst : 1 < day
  · -- within a month only the day counts
    simp only [dayBefore, if_pos hfirst, toDays]
    omega
  · obtain rfl : day = 1 := by omega
    by_cases hmarch : month = 3
    · -- the leap days are here, and nowhere else
      subst hmarch
      rw [toDays_march]
      exact (Int.add_sub_cancel _ _).symm
    · -- any other month begins in the same year from March on as the one before it ends
      interval_cases month
      all_goals simp [dayBefore, toDays, daysInMonth] at hmarch ⊢
      all_goals omega

theorem isDate_iterate (h : d.IsDate) (n : Nat) : (dayBefore^[n] d).IsDate := by
  induction n with
  | zero => exact h
  | succ n ih =>
      rw [Function.iterate_succ_apply']
      exact ih.dayBefore

theorem toDays_iterate (h : d.IsDate) (n : Nat) : (dayBefore^[n] d).toDays = d.toDays - n := by
  induction n with
  | zero => exact (Int.sub_zero _).symm
  | succ n ih =>
      rw [Function.iterate_succ_apply', toDays_dayBefore (isDate_iterate h n), ih]
      omega

theorem year_iterate (d : Date) (h : k ≤ n) : (dayBefore^[n] d).year ≤ (dayBefore^[k] d).year := by
  induction n, h using Nat.le_induction with
  | base => exact Int.le_refl _
  | succ n _ ih =>
      rw [Function.iterate_succ_apply']
      exact Int.le_trans (year_dayBefore _) ih

/-- Going back leaves the years in use only at their beginning. -/
theorem InUse.iterate_of_le (hd : d.InUse) (h : k ≤ n) (hn : (dayBefore^[n] d).InUse) :
    (dayBefore^[k] d).InUse where
  first := Int.le_trans hn.first (year_iterate d h)
  last := Int.le_trans (year_iterate d (Nat.zero_le k)) hd.last

/-! ## §3. Dates from numbers. -/

/-- The days of a year that begins in March: 365, and one more when it ends with a leap day. -/
structure InMarchYear (year day : Int) : Prop where
  first : 0 ≤ day
  last : day < 365 ∨ day = 365 ∧ isLeap (year + 1) = true

theorem inMarchYear_dayFromMarch (h : d.IsDate) : InMarchYear d.marchYear d.dayFromMarch := by
  obtain ⟨year, month, day⟩ := d
  obtain ⟨hmonth, hmonth', hday, hday'⟩ := h
  simp only at hmonth hmonth' hday hday'
  unfold dayFromMarch monthFromMarch marchYear
  by_cases hfebruary : month = 2
  · subst hfebruary
    have hlength : daysInMonth year 2 = if isLeap year = true then 29 else 28 := rfl
    rw [hlength] at hday'
    simp only [Nat.le_refl, if_true]
    split at hday'
    next h =>
      refine ⟨by omega, ?_⟩
      rw [Int.sub_add_cancel, and_iff_left h]
      omega
    next => exact ⟨by omega, .inl (by omega)⟩
  · have hle := daysInMonth_le year month
    simp only
    split
    · exact ⟨by omega, .inl (by omega)⟩
    · exact ⟨by omega, .inl (by omega)⟩

/-- Leap years come again after 400 years. -/
theorem isLeap_emod (year : Int) : isLeap (year % 400 + 1) = isLeap (year + 1) := by
  rw [Bool.eq_iff_iff, isLeap_iff, isLeap_iff]
  omega

/-- **The year is found from a day of the 400 years.**  A century has 36524 days but for the last,
and four years 1461 but for those that end with a century. -/
theorem yearOfCycle_eq {year day n : Int} (hyear : 0 ≤ year) (hyear' : year < 400)
    (h : InMarchYear year day) (hn : n = yearStart year + day) :
    (n - n / 1460 + n / 36524 - n / 146096) / 365 = year := by
  obtain ⟨hfirst, hlast⟩ := h
  rw [isLeap_iff] at hlast
  obtain ⟨c, q, r, hparts, hc, hc', hq, hq', hr, hr'⟩ : ∃ c q r : Int,
      year = 100 * c + 4 * q + r ∧ 0 ≤ c ∧ c ≤ 3 ∧ 0 ≤ q ∧ q ≤ 24 ∧ 0 ≤ r ∧ r ≤ 3 :=
    ⟨year / 100, year % 100 / 4, year % 4, by omega, by omega, by omega, by omega, by omega,
      by omega, by omega⟩
  have hdays : n = 36524 * c + (1461 * q + 365 * r + day) := by
    have hfours : year / 4 = 25 * c + q := by omega
    have hcenturies : year / 100 = c := by omega
    rw [hn, yearStart]
    omega
  -- a leap day is the last of four years, and of a century only at the end of all
  have hlast' : day < 365 ∨ day = 365 ∧ r = 3 ∧ (q < 24 ∨ c = 3) := by
    clear hn hdays
    omega
  clear hlast hn
  have hcentury : n / 36524 - n / 146096 = c := by
    rcases Int.lt_or_le (1461 * q + 365 * r + day) 36524 with hlt | hle
    · have hthis : n / 36524 = c := by omega
      have hnone : n / 146096 = 0 := by omega
      omega
    · -- the last day of all would count as one of a fifth century
      have hvery : n = 146096 := by omega
      omega
  have hfour : n / 1460 = 25 * c + q + (24 * c + q + 365 * r + day) / 1460 := by
    omega
  -- what is left of the day, less the leap day that may have come before it
  have hlow : 0 ≤ day - (24 * c + q + 365 * r + day) / 1460 := by
    clear hfour hcentury
    omega
  have hhigh : day - (24 * c + q + 365 * r + day) / 1460 < 365 := by
    clear hfour hcentury
    omega
  have hsum : n - n / 1460 + n / 36524 - n / 146096
      = year * 365 + (day - (24 * c + q + 365 * r + day) / 1460) := by
    rw [hfour, Int.add_sub_assoc, hcentury]
    omega
  rw [hsum]
  clear hsum hfour hcentury
  omega

/-- The lengths of the months, from March on, in one formula; that of February ends too late. -/
theorem day_le_monthEnd (h : d.IsDate) :
    (153 * d.monthFromMarch + 2) / 5 + d.day ≤ (153 * (d.monthFromMarch + 1) + 2) / 5 := by
  obtain ⟨year, month, day⟩ := d
  obtain ⟨hmonth, hmonth', hday, hday'⟩ := h
  simp only [monthFromMarch] at hmonth hmonth' hday hday' ⊢
  by_cases hfebruary : month = 2
  · subst hfebruary
    have hlength : daysInMonth year 2 = if isLeap year = true then 29 else 28 := rfl
    rw [hlength] at hday'
    split at hday' <;> simp <;> omega
  · interval_cases month
    all_goals simp [daysInMonth] at hfebruary hday' ⊢
    all_goals omega

/-- What a number gives, when its parts are known. -/
theorem ofDays_of_parts {z cycles n year day month : Int} (hz : z + epoch = cycles * cycle + n)
    (hn : 0 ≤ n ∧ n < cycle)
    (hyear : (n - n / 1460 + n / 36524 - n / 146096) / 365 = year)
    (hday : n - (365 * year + year / 4 - year / 100) = day)
    (hmonth : (5 * day + 2) / 153 = month) :
    ofDays z = ⟨year + cycles * 400 + (if (if month < 10 then month + 3 else month - 9) ≤ 2 then 1
        else 0), (if month < 10 then month + 3 else month - 9).toNat,
      (day - (153 * month + 2) / 5 + 1).toNat⟩ := by
  have hrest : (z + epoch) % cycle = n := by
    unfold cycle at *
    omega
  have hcycles : (z + epoch) / cycle = cycles := by
    unfold cycle at *
    omega
  simp only [ofDays, hrest, hcycles, hyear, hday, hmonth]

/-- **A date is found again from its number.** -/
theorem ofDays_toDays (h : d.IsDate) : ofDays d.toDays = d := by
  -- the year of the 400 years that begin in March, and the day of that year
  have hyear : 0 ≤ d.marchYear % 400 ∧ d.marchYear % 400 < 400 := by omega
  have hday : InMarchYear (d.marchYear % 400) d.dayFromMarch := by
    obtain ⟨hfirst, hlast⟩ := inMarchYear_dayFromMarch h
    exact ⟨hfirst, by rwa [isLeap_emod]⟩
  have hnumber : d.toDays + epoch = d.marchYear / 400 * cycle
      + (yearStart (d.marchYear % 400) + d.dayFromMarch) := by
    rw [toDays_eq]
    exact Int.sub_add_cancel _ _
  have hbounds : 0 ≤ yearStart (d.marchYear % 400) + d.dayFromMarch
      ∧ yearStart (d.marchYear % 400) + d.dayFromMarch < cycle := by
    obtain ⟨hfirst, hlast⟩ := hday
    rw [isLeap_iff] at hlast
    unfold yearStart cycle
    omega
  have hyear' := yearOfCycle_eq hyear.1 hyear.2 hday rfl
  have hday' : yearStart (d.marchYear % 400) + d.dayFromMarch
      - (365 * (d.marchYear % 400) + d.marchYear % 400 / 4 - d.marchYear % 400 / 100)
        = d.dayFromMarch := by
    unfold yearStart
    omega
  have hmonth : (5 * d.dayFromMarch + 2) / 153 = d.monthFromMarch := by
    have hend := day_le_monthEnd h
    have hpos := h.day_pos
    unfold dayFromMarch
    omega
  rw [ofDays_of_parts hnumber hbounds hyear' hday' hmonth]
  obtain ⟨hmonth_pos, hmonth_le, hday_pos, -⟩ := h
  obtain ⟨year, month, day⟩ := d
  simp only [marchYear, monthFromMarch, dayFromMarch] at *
  -- January and February belong to the year that began in March before
  by_cases hbefore : month ≤ 2
  · simp only [if_pos hbefore, Date.mk.injEq]
    omega
  · simp only [if_neg hbefore, Date.mk.injEq]
    omega

/-- **Some days before, in numbers and day by day.** -/
theorem iterate_dayBefore (h : d.IsDate) (n : Nat) : dayBefore^[n] d = ofDays (d.toDays - n) := by
  rw [← toDays_iterate h, ofDays_toDays (isDate_iterate h n)]

/-- The first of March of year 2000 comes after a leap day, that of 1900 does not. -/
example : ofDays (toDays ⟨2000, 3, 1⟩ - 1) = ⟨2000, 2, 29⟩
    ∧ ofDays (toDays ⟨1900, 3, 1⟩ - 1) = ⟨1900, 2, 28⟩ := by
  decide

theorem ofDays?_sub (h : d.IsDate) (n : Nat) : ofDays? (d.toDays - n)
    = if (dayBefore^[n] d).InUse then some (dayBefore^[n] d) else none := by
  simp only [ofDays?, ← iterate_dayBefore h, inUse_iff]

end Crosswalk.Calendar.Date
