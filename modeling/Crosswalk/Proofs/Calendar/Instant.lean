/-
  Crosswalk.Proofs.Calendar.Instant
  ──────────────────────────────────────
  **INSTANTS SOME DAYS BEFORE OTHERS.**

  Going back some days keeps the time of day.  Only a leap second is left on
  the way, to the first second behind it, which may be on the next day:

    • `IsInstant`: the instants that a clock may show,
    • `minusDays?_eq`: the instant some days before, for every instant,
    • `minusDays?_plain`: its time of day, but for leap seconds,
    • `minusDays?_mono`: what is too far away stays so with more days.
-/
import Crosswalk.Calendar.Instant
import Crosswalk.Proofs.Calendar.Date

namespace Crosswalk.Calendar.Instant

open Date (dayBefore)

variable {t u : Instant} {m n : Nat}

/-! ## §1. The instants of a clock. -/

/-- A time of a day in use.  The fraction of a leap second is counted from the second before. -/
structure IsInstant (t : Instant) : Prop where
  date : t.date.IsDate
  inUse : t.date.InUse
  hour : t.hour < 24
  minute : t.minute < 60
  second : t.second < 60
  nanosecond : t.nanosecond < 2 * nanosPerSecond

theorem isInstant_iff : IsInstant t ↔ t.date.IsDate ∧ t.date.InUse ∧ t.hour < 24 ∧ t.minute < 60
    ∧ t.second < 60 ∧ t.nanosecond < 2 * nanosPerSecond :=
  ⟨fun h => ⟨h.date, h.inUse, h.hour, h.minute, h.second, h.nanosecond⟩,
    fun h => ⟨h.1, h.2.1, h.2.2.1, h.2.2.2.1, h.2.2.2.2.1, h.2.2.2.2.2⟩⟩

instance : Decidable (IsInstant t) :=
  decidable_of_iff _ isInstant_iff.symm

theorem IsInstant.secondOfDay_lt (h : t.IsInstant) : t.secondOfDay < secondsPerDay := by
  have hhour := h.hour
  have hminute := h.minute
  have hsecond := h.second
  unfold secondOfDay secondsPerDay
  omega

theorem fraction_lt (t : Instant) : t.fraction < nanosPerSecond :=
  Nat.mod_lt _ (by decide)

/-- A second of a day is a time of it. -/
theorem isInstant_atSecond {d : Date} {second nanosecond : Nat} (hdate : d.IsDate)
    (hinUse : d.InUse) (hsecond : second < secondsPerDay)
    (hnanosecond : nanosecond < nanosPerSecond) :
    (atSecond d second nanosecond).IsInstant where
  date := hdate
  inUse := hinUse
  hour := by
    show second / 3600 < 24
    unfold secondsPerDay at hsecond
    omega
  minute := Nat.mod_lt _ (by decide)
  second := Nat.mod_lt _ (by decide)
  nanosecond := by
    show nanosecond < 2 * nanosPerSecond
    omega

/-! ## §2. Some days before. -/

/-- The second of the day, behind the leap second if it is one. -/
def secondBehind (t : Instant) : Nat :=
  t.secondOfDay + if t.inLeapSecond then 1 else 0

/-- The days that leaving the leap second takes: one at the end of a day. -/
def daysBehind (t : Instant) : Nat :=
  t.secondBehind / secondsPerDay

theorem IsInstant.daysBehind_le (h : t.IsInstant) : t.daysBehind ≤ 1 := by
  have hlt := h.secondOfDay_lt
  unfold daysBehind secondBehind secondsPerDay at *
  split <;> omega

/-- **The instant some days before.** -/
theorem minusDays?_eq (h : t.IsInstant) (hn : n ≠ 0) : t.minusDays? n
    = if (dayBefore^[n - t.daysBehind] t.date).InUse then
        some (atSecond (dayBefore^[n - t.daysBehind] t.date) (t.secondBehind % secondsPerDay)
          t.fraction)
      else none := by
  have hle := h.daysBehind_le
  -- the day that leaving a leap second may take is one day less to go back
  have hdays : t.date.toDays - n + (t.daysBehind : Nat)
      = t.date.toDays - (n - t.daysBehind : Nat) := by omega
  unfold minusDays?
  rw [if_neg hn]
  show (Date.ofDays? (t.date.toDays - n + (t.daysBehind : Nat))).map _ = _
  rw [hdays, Date.ofDays?_sub h.date, apply_ite (Option.map _)]
  rfl

/-- **Outside of leap seconds the time of day stays.** -/
theorem minusDays?_plain (h : t.IsInstant) (hleap : t.inLeapSecond = false) (n : Nat) :
    t.minusDays? n = if (dayBefore^[n] t.date).InUse then
        some { t with date := dayBefore^[n] t.date }
      else none := by
  by_cases hn : n = 0
  · subst hn
    rw [Function.iterate_zero_apply, if_pos h.inUse]
    rfl
  · have hlt := h.secondOfDay_lt
    have hbehind : t.secondBehind = t.secondOfDay := by
      simp [secondBehind, hleap]
    have hdays : t.daysBehind = 0 := by
      unfold daysBehind
      rw [hbehind]
      exact Nat.div_eq_of_lt hlt
    have htime : ∀ d : Date, atSecond d (t.secondOfDay % secondsPerDay) t.fraction
        = { t with date := d } := by
      intro d
      have hplain : t.nanosecond < nanosPerSecond := by
        simpa [inLeapSecond] using hleap
      have hhour := h.hour
      have hminute := h.minute
      have hsecond := h.second
      rw [Nat.mod_eq_of_lt hlt]
      unfold atSecond secondOfDay fraction
      rw [Nat.mod_eq_of_lt hplain]
      simp only [Instant.mk.injEq, true_and, and_true]
      omega
    rw [minusDays?_eq h hn, hdays, hbehind, htime]
    rfl

/-- An instant some days before is one that a clock may show. -/
theorem IsInstant.minusDays (h : t.IsInstant) (hu : t.minusDays? n = some u) : u.IsInstant := by
  by_cases hn : n = 0
  · subst hn
    obtain rfl : t = u := Option.some.inj hu
    exact h
  · rw [minusDays?_eq h hn, Option.ite_none_right_eq_some] at hu
    obtain ⟨hinUse, hu⟩ := hu
    obtain rfl := Option.some.inj hu
    exact isInstant_atSecond (Date.isDate_iterate h.date _) hinUse (Nat.mod_lt _ (by decide))
      t.fraction_lt

/-- **What is too far away stays so with more days.** -/
theorem minusDays?_mono (h : t.IsInstant) (hle : m ≤ n) (hm : t.minusDays? m = none) :
    t.minusDays? n = none := by
  -- without any days there is always an instant
  have hzero : m ≠ 0 := by
    intro hzero
    subst hzero
    cases hm
  rw [minusDays?_eq h hzero, ite_eq_right_iff] at hm
  rw [minusDays?_eq h (by omega), if_neg]
  intro hinUse
  cases hm (h.inUse.iterate_of_le (Nat.sub_le_sub_right hle _) hinUse)

end Crosswalk.Calendar.Instant
