/-
  Crosswalk.Calendar.Instant
  ──────────────────────────────────────
  **INSTANTS OF UNIVERSAL TIME.**

  An instant is a date and a time of day.  A leap second is the second before
  it with a fraction of a whole second or more; only `fraction` is printed.
-/
import Crosswalk.Calendar.Date

namespace Crosswalk.Calendar

/-- A point in time. -/
structure Instant where
  date : Date
  hour : Nat
  minute : Nat
  second : Nat
  /-- Nanoseconds; `10 ^ 9` and above within a leap second. -/
  nanosecond : Nat
  deriving DecidableEq, Repr

namespace Instant

/-- The nanoseconds of a second. -/
def nanosPerSecond : Nat := 1000000000

/-- The seconds of a day. -/
def secondsPerDay : Nat := 86400

/-- The nanoseconds since the last full second. -/
def fraction (t : Instant) : Nat :=
  t.nanosecond % nanosPerSecond

/-- The instant falls into a leap second. -/
def inLeapSecond (t : Instant) : Bool :=
  nanosPerSecond ≤ t.nanosecond

/-- The hour on a dial of twelve hours, 12 at noon and at midnight. -/
def hourOfDial (t : Instant) : Nat :=
  if t.hour % 12 = 0 then 12 else t.hour % 12

/-- The instant is after noon. -/
def afterNoon (t : Instant) : Bool :=
  12 ≤ t.hour

/-- The second of the day. -/
def secondOfDay (t : Instant) : Nat :=
  t.hour * 3600 + t.minute * 60 + t.second

/-- The instant at a second of a day. -/
def atSecond (date : Date) (second nanosecond : Nat) : Instant :=
  ⟨date, second / 3600, second / 60 % 60, second % 60, nanosecond⟩

/-- The instant so many days earlier, when its year is in use.  No other day has the leap second:
leaving it earlier counts it as the first second after. -/
def minusDays? (t : Instant) (days : Nat) : Option Instant :=
  if days = 0 then some t
  else
    let second := t.secondOfDay + (if t.inLeapSecond then 1 else 0)
    (Date.ofDays? (t.date.toDays - days + (second / secondsPerDay : Nat))).map
      (atSecond · (second % secondsPerDay) t.fraction)

end Instant

end Crosswalk.Calendar
