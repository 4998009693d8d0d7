/-
  Crosswalk.Calendar.Date
  ──────────────────────────────────────
  **DATES OF THE GREGORIAN CALENDAR.**

  The calendar runs in both directions without a gap; the year before year 1
  is year 0.  `Date.toDays` numbers the days, with 1970-01-01 as day 0, and
  `Date.ofDays` finds the date of a day.

  Both count from the first of March: a year that begins there ends with its
  leap day, 400 of them have 146097 days, and the months from March on have
  `31, 30, 31, 30, 31` days again and again.
-/

namespace Crosswalk.Calendar

/-- A date.  Months and days count from one. -/
structure Date where
  year : Int
  month : Nat
  day : Nat
  deriving DecidableEq, Repr

namespace Date

/-! ## §1. Years and months. -/

/-- A year has a leap day when 4 divides it but 100 does not, or 400 does. -/
def isLeap (year : Int) : Bool :=
  year % 4 == 0 && (year % 100 != 0 || year % 400 == 0)

/-- The number of days of a month. -/
def daysInMonth (year : Int) (month : Nat) : Nat :=
  match month with
  | 2 => if isLeap year then 29 else 28
  | 4 | 6 | 9 | 11 => 30
  | _ => 31

/-- The place of a date in its year, from one. -/
def ordinal (d : Date) : Nat :=
  ((List.range (d.month - 1)).map (fun m => daysInMonth d.year (m + 1))).foldl (· + ·) d.day

/-! ## §2. Days. -/

/-- The days of 400 years. -/
def cycle : Int := 146097

/-- The days from the first of March of year 0 to day 0. -/
def epoch : Int := 719468

/-- The number of a day. -/
def toDays (d : Date) : Int :=
  let year := if d.month ≤ 2 then d.year - 1 else d.year
  let yearOfCycle := year % 400
  let monthFromMarch : Int := if d.month ≤ 2 then d.month + 9 else d.month - 3
  let dayOfYear := (153 * monthFromMarch + 2) / 5 + d.day - 1
  let dayOfCycle := yearOfCycle * 365 + yearOfCycle / 4 - yearOfCycle / 100 + dayOfYear
  year / 400 * cycle + dayOfCycle - epoch

/-- The date of a day. -/
def ofDays (n : Int) : Date :=
  let z := n + epoch
  let dayOfCycle := z % cycle
  let yearOfCycle :=
    (dayOfCycle - dayOfCycle / 1460 + dayOfCycle / 36524 - dayOfCycle / 146096) / 365
  let dayOfYear := dayOfCycle - (365 * yearOfCycle + yearOfCycle / 4 - yearOfCycle / 100)
  let monthFromMarch := (5 * dayOfYear + 2) / 153
  let day := dayOfYear - (153 * monthFromMarch + 2) / 5 + 1
  let month := if monthFromMarch < 10 then monthFromMarch + 3 else monthFromMarch - 9
  let year := yearOfCycle + z / cycle * 400 + (if month ≤ 2 then 1 else 0)
  ⟨year, month.toNat, day.toNat⟩

/-- The day of the week, from Monday as zero. -/
def weekday (d : Date) : Fin 7 :=
  ⟨((d.toDays + 3) % 7).toNat, by omega⟩

/-! ## §3. The dates in use. -/

/-- The first year in use. -/
def firstYear : Int := -262143

/-- The last year in use. -/
def lastYear : Int := 262142

/-- The date of a day, when its year is in use. -/
def ofDays? (n : Int) : Option Date :=
  let d := ofDays n
  if firstYear ≤ d.year ∧ d.year ≤ lastYear then some d else none

end Date

end Crosswalk.Calendar
