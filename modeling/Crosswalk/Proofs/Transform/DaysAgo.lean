/-
  Crosswalk.Proofs.Transform.DaysAgo
  ──────────────────────────────────────
  **SOME DAYS AGO.**

  A call of `subtractDays` goes back from the current instant, whatever its
  first argument and the current value are:

    • `apply_subtractDays`: the instant some days before, or a fault,
    • `apply_daysAgo`: the day and the time of day that come out,
    • `apply_manyDays`: too many days are a fault, as long as their number
      fits in 64 bits.
-/
import Crosswalk.Proofs.Transform.NumberCall
import Crosswalk.Proofs.Transform.Stamp

namespace Crosswalk.Transform

open Calendar

variable {s : Setting} {r y : Text} {m n : Nat}

/-! ## §1. Going back. -/

/-- **A call gives the stamp of the instant so many days before**, or fails when there is none. -/
theorem apply_subtractDays (hnow : s.now.IsInstant) (hr : IsArgument r) (hy : Text.Decimal y n)
    (hn : n < 2 ^ 63) :
    (s.now.minusDays? n = none → s.apply (numberCall .subtractDays r y) = .error (.days n))
      ∧ ∀ u, s.now.minusDays? n = some u →
        ∃ text, s.apply (numberCall .subtractDays r y) = .ok (some text) ∧ IsStamp u text := by
  have happly : s.apply (numberCall .subtractDays r y) = (s.stampBefore n).map some := by
    show s.evaluate (Expression.read (numberCall .subtractDays r y)) = _
    rw [read_subtractDays hr hy hn]
    rfl
  constructor
  · intro hnone
    rw [happly, Setting.stampBefore, hnone]
    rfl
  · intro u hu
    obtain ⟨text, htext, hstamp⟩ := stamp_full (hnow.minusDays hu)
    refine ⟨text, ?_, hstamp⟩
    rw [happly, Setting.stampBefore, hu]
    show (stamp u fullStamp).map some = _
    rw [htext]
    rfl

/-! ## §2. The day that comes out. -/

/-- **GOING BACK IS EXACT.**  Outside of leap seconds a call of `subtractDays` with a number of 64
bits fails exactly when the day so many days before the current one is not in use.  Otherwise it
gives the only stamp of that day, at the time of day of the current instant. -/
theorem apply_daysAgo (s : Setting) (hnow : s.now.IsInstant) (hleap : s.now.inLeapSecond = false)
    (hr : IsArgument r) (hy : Text.Decimal y n) (hn : n < 2 ^ 63) :
    (s.apply (numberCall .subtractDays r y) = .error (.days n)
        ↔ ¬ (Date.dayBefore^[n] s.now.date).InUse)
      ∧ ((Date.dayBefore^[n] s.now.date).InUse →
        ∃ text, s.apply (numberCall .subtractDays r y) = .ok (some text)
          ∧ IsStamp { s.now with date := Date.dayBefore^[n] s.now.date } text
          ∧ ∀ other, IsStamp { s.now with date := Date.dayBefore^[n] s.now.date } other →
              other = text) := by
  obtain ⟨hfails, hgives⟩ := apply_subtractDays hnow hr hy hn
  rw [Instant.minusDays?_plain hnow hleap n] at hfails hgives
  have hstamped : (Date.dayBefore^[n] s.now.date).InUse →
      ∃ text, s.apply (numberCall .subtractDays r y) = .ok (some text)
        ∧ IsStamp { s.now with date := Date.dayBefore^[n] s.now.date } text
        ∧ ∀ other, IsStamp { s.now with date := Date.dayBefore^[n] s.now.date } other →
            other = text := by
    intro hinUse
    obtain ⟨text, htext, hstamp⟩ := hgives _ (if_pos hinUse)
    exact ⟨text, htext, hstamp, fun other hother => hother.unique hstamp⟩
  refine ⟨⟨?_, ?_⟩, hstamped⟩
  · intro herror hinUse
    obtain ⟨text, htext, -⟩ := hstamped hinUse
    rw [htext] at herror
    cases herror
  · intro hinUse
    exact hfails (if_neg hinUse)

/-- Shortly before midnight of a leap day. -/
def leapDay : Setting :=
  ⟨⟨⟨2024, 2, 29⟩, 23, 59, 59, 999999999⟩, some "v".toList, none⟩

/-- From there the first day in use is reached, and not the one before it. -/
theorem apply_daysAgo_firstDay :
    (∃ text, leapDay.apply (numberCall .subtractDays "now()".toList "96485074".toList)
        = .ok (some text) ∧ IsStamp ⟨⟨-262143, 1, 1⟩, 23, 59, 59, 999999999⟩ text)
      ∧ leapDay.apply (numberCall .subtractDays "now()".toList "096485075".toList)
        = .error (.days 96485075) := by
  have hfirst : Text.Decimal "96485074".toList 96485074 := by decide
  have hbefore : Text.Decimal "096485075".toList 96485075 := by decide
  have hdate : leapDay.now.date.IsDate := by decide
  have hgives := apply_daysAgo leapDay (by decide) (by decide) (r := "now()".toList) (by decide)
    hfirst (by decide)
  have hfails := apply_daysAgo leapDay (by decide) (by decide) (r := "now()".toList) (by decide)
    hbefore (by decide)
  rw [Date.iterate_dayBefore hdate] at hgives hfails
  obtain ⟨text, htext, hstamp, -⟩ := hgives.2 (by decide)
  exact ⟨⟨text, htext, hstamp⟩, hfails.1.mpr (by decide)⟩

/-! ## §3. Too many days. -/

/-- **TOO MANY DAYS FAIL, UP TO 64 BITS.**  When a number of days fails, a greater one fails exactly
if it fits in 64 bits.  A number that fits is answered with a fault, or with the stamp of the
instant so many days before, whatever the current value is; one that does not fit is answered with
the current value, or with nothing when there is none. -/
theorem apply_manyDays (s : Setting) (hnow : s.now.IsInstant) (hr : IsArgument r) {a b : Text}
    (ha : Text.Decimal a m) (hb : Text.Decimal b n) (hle : m ≤ n) :
    ((∃ f, s.apply (numberCall .subtractDays r a) = .error f) →
        ((∃ f, s.apply (numberCall .subtractDays r b) = .error f) ↔ n < 2 ^ 63))
      ∧ (n < 2 ^ 63 → s.apply (numberCall .subtractDays r b) = .error (.days n)
        ∨ ∃ u text, s.now.minusDays? n = some u
          ∧ s.apply (numberCall .subtractDays r b) = .ok (some text) ∧ IsStamp u text)
      ∧ (2 ^ 63 ≤ n →
        s.apply (numberCall .subtractDays r b) = .ok (some (s.value.getD []))) := by
  have hunread : ∀ {y k}, Text.Decimal y k → 2 ^ 63 ≤ k →
      s.apply (numberCall .subtractDays r y) = .ok (some (s.value.getD [])) := by
    intro y k hy hk
    show s.evaluate (Expression.read (numberCall .subtractDays r y)) = _
    rw [read_tooManyDays hr hy hk]
    rfl
  refine ⟨?_, ?_, hunread hb⟩
  · rintro ⟨f, hf⟩
    constructor
    · rintro ⟨g, hg⟩
      by_contra hgreat
      rw [hunread hb (by omega)] at hg
      cases hg
    · intro hn
      obtain ⟨-, hgives⟩ := apply_subtractDays hnow hr ha (by omega)
      -- the smaller number can only have failed because it leads too far
      have hnone : s.now.minusDays? m = none := by
        rw [Option.eq_none_iff_forall_ne_some]
        intro u hu
        obtain ⟨text, htext, -⟩ := hgives u hu
        rw [htext] at hf
        cases hf
      exact ⟨_, (apply_subtractDays hnow hr hb hn).1 (Instant.minusDays?_mono hnow hle hnone)⟩
  · intro hn
    obtain ⟨hfails, hgives⟩ := apply_subtractDays hnow hr hb hn
    cases hu : s.now.minusDays? n with
    | none => exact .inl (hfails hu)
    | some u =>
        obtain ⟨text, htext, hstamp⟩ := hgives u hu
        exact .inr ⟨u, text, rfl, htext, hstamp⟩

/-- The greatest number of 64 bits fails, the next one gives back the current value. -/
theorem apply_manyDays_beyond :
    (∃ f, leapDay.apply (numberCall .subtractDays "now()".toList "9223372036854775807".toList)
        = .error f)
      ∧ leapDay.apply (numberCall .subtractDays "now()".toList "9223372036854775808".toList)
        = .ok (some "v".toList) := by
  have hmost : Text.Decimal "9223372036854775807".toList 9223372036854775807 := by decide
  have hbeyond : Text.Decimal "9223372036854775808".toList 9223372036854775808 := by decide
  have hnone : leapDay.now.minusDays? 9223372036854775807 = none := by decide
  obtain ⟨-, hfits, -⟩ := apply_manyDays leapDay (by decide) (r := "now()".toList) (by decide)
    hmost hmost (Nat.le_refl _)
  obtain ⟨-, -, hvalue⟩ := apply_manyDays leapDay (by decide) (r := "now()".toList) (by decide)
    hmost hbeyond (by decide)
  refine ⟨?_, hvalue (by decide)⟩
  rcases hfits (by decide) with herror | ⟨u, text, hu, -, -⟩
  · exact ⟨_, herror⟩
  · rw [hnone] at hu
    cases hu

end Crosswalk.Transform
