/-
  Crosswalk.Proofs.Text.Digits
  ──────────────────────────────────────
  **NUMBERS IN DECIMAL DIGITS.**

  What a text of digits stands for is fixed by the places of its digits, and
  does not depend on how it is read:

    • `Decimal`, `natural?_eq_some`: the texts that are read as a number,
    • `SignedDecimal`, `signed?_eq_some`: those with an optional sign, within
      the words of some bits.
-/
import Mathlib.Data.List.Induction
import Mathlib.Data.Nat.Digits.Defs
import Crosswalk.Proofs.Text.Search

namespace Crosswalk.Text

variable {s : Text} {c : Char} {n bits : Nat} {i : Int}

/-! ## §1. Digits. -/

/-- The text is the number in decimal digits, leading zeros included. -/
structure Decimal (s : Text) (n : Nat) : Prop where
  some : s ≠ []
  digits : ∀ c ∈ s, c.isDigit = true
  value : Nat.ofDigits 10 (s.reverse.map fun c => c.toNat - 48) = n

theorem digit?_ten (c : Char) :
    digit? 10 c = if c.isDigit = true then some (c.toNat - 48) else none := by
  unfold digit?
  by_cases hdigit : c.isDigit = true
  · have hlt : c.toNat - 48 < 10 := by
      have hnine : c.toNat ≤ 57 := of_decide_eq_true (Bool.and_eq_true_iff.mp hdigit).2
      omega
    rw [if_pos hdigit, if_pos hdigit]
    simp [hlt]
  · rw [if_neg hdigit, if_neg hdigit]
    by_cases hlower : 'a' ≤ c ∧ c ≤ 'z'
    · have hbound : 97 ≤ c.toNat := hlower.1
      rw [if_pos hlower]
      simp
      omega
    · rw [if_neg hlower]
      by_cases hupper : 'A' ≤ c ∧ c ≤ 'Z'
      · have hbound : 65 ≤ c.toNat := hupper.1
        rw [if_pos hupper]
        simp
        omega
      · rw [if_neg hupper]
        rfl

theorem foldlM_digits (s : Text) :
    s.foldlM (fun n c => (digit? 10 c).map (n * 10 + ·)) 0
      = if s.all Char.isDigit = true then
          some (Nat.ofDigits 10 (s.reverse.map fun c => c.toNat - 48))
        else none := by
  induction s using List.reverseRecOn with
  | nil => rfl
  | append_singleton s c ih =>
      rw [List.foldlM_append, ih, List.all_append]
      by_cases hs : s.all Char.isDigit = true
      · by_cases hc : c.isDigit = true
        · simp [hs, hc, digit?_ten, Nat.ofDigits_cons, Nat.mul_comm, Nat.add_comm]
        · simp [hs, hc, digit?_ten]
      · simp [hs]

/-- **The texts that are read as a number.** -/
theorem natural?_eq_some : natural? 10 s = some n ↔ Decimal s n := by
  unfold natural?
  by_cases hs : s = []
  · subst hs
    exact ⟨fun h => (Option.some_ne_none _ h.symm).elim, fun h => absurd rfl h.some⟩
  · rw [if_neg (by simpa using hs), foldlM_digits]
    constructor
    · intro h
      obtain ⟨hdigits, hvalue⟩ := Option.ite_none_right_eq_some.mp h
      exact ⟨hs, List.all_eq_true.mp hdigits, Option.some.inj hvalue⟩
    · rintro ⟨-, hdigits, hvalue⟩
      rw [if_pos (List.all_eq_true.mpr hdigits), hvalue]

/-! ## §2. Signs. -/

/-- The text is the number in decimal digits, with an optional sign before them. -/
inductive SignedDecimal : Text → Int → Prop
  | plain {s : Text} {n : Nat} (h : Decimal s n) : SignedDecimal s n
  | plus {s : Text} {n : Nat} (h : Decimal s n) : SignedDecimal ('+' :: s) n
  | minus {s : Text} {n : Nat} (h : Decimal s n) : SignedDecimal ('-' :: s) (-n)

/-- Digits are no sign. -/
theorem not_decimal_cons (hc : c.isDigit = false) : ¬ Decimal (c :: s) n := by
  intro h
  have hdigit := h.digits c List.mem_cons_self
  rw [hc] at hdigit
  cases hdigit

theorem unsigned?_plus {bound : Nat} :
    unsigned? 10 bound ('+' :: s) = some n ↔ Decimal s n ∧ n ≤ bound := by
  show (natural? 10 s).filter (· ≤ bound) = some n ↔ _
  rw [Option.filter_eq_some_iff, natural?_eq_some, decide_eq_true_eq]

theorem unsigned?_of_ne_plus {bound : Nat} (hs : ∀ ds, s ≠ '+' :: ds) :
    unsigned? 10 bound s = some n ↔ Decimal s n ∧ n ≤ bound := by
  have hnone : after? ['+'] s = none := by
    refine after?_eq_none ?_
    rintro ⟨ds, rfl⟩
    exact hs ds rfl
  unfold unsigned? dropLead
  rw [hnone, Option.getD_none, Option.filter_eq_some_iff, natural?_eq_some, decide_eq_true_eq]

theorem signed?_minus : signed? 10 bits ('-' :: s) = some i
    ↔ ∃ n, Decimal s n ∧ n ≤ 2 ^ (bits - 1) ∧ i = -(n : Int) := by
  show (((natural? 10 s).filter (· ≤ Nat.pow 2 (bits - 1))).bind fun n => some (n : Int)).map (- ·)
    = some i ↔ _
  simp only [Option.map_eq_some_iff, Option.bind_eq_some_iff, Option.filter_eq_some_iff,
    natural?_eq_some, decide_eq_true_eq, Option.some.injEq]
  constructor
  · rintro ⟨_, ⟨n, ⟨hn, hle⟩, rfl⟩, rfl⟩
    exact ⟨n, hn, hle, rfl⟩
  · rintro ⟨n, hn, hle, rfl⟩
    exact ⟨n, ⟨n, ⟨hn, hle⟩, rfl⟩, rfl⟩

theorem signed?_of_ne_minus (hs : ∀ ds, s ≠ '-' :: ds) : signed? 10 bits s = some i
    ↔ ∃ n : Nat, unsigned? 10 (2 ^ (bits - 1) - 1) s = some n ∧ (n : Int) = i := by
  have hplain : signed? 10 bits s = (unsigned? 10 (2 ^ (bits - 1) - 1) s).map Int.ofNat := by
    unfold signed?
    split
    next ds => exact absurd rfl (hs ds)
    next => rfl
  rw [hplain, Option.map_eq_some_iff]
  rfl

/-- **The texts that are read as a number with an optional sign**, within the words of some bits. -/
theorem signed?_eq_some : signed? 10 bits s = some i
    ↔ SignedDecimal s i ∧ -2 ^ (bits - 1) ≤ i ∧ i < 2 ^ (bits - 1) := by
  obtain ⟨words, hwords⟩ : ∃ words : Nat, words = 2 ^ (bits - 1) := ⟨_, rfl⟩
  have hpos : 0 < words := hwords ▸ Nat.two_pow_pos _
  have hint : (2 : Int) ^ (bits - 1) = words := by rw [hwords, Int.natCast_pow]; rfl
  rw [hint]
  -- a sign is no digit, so every beginning leaves one way to read the text
  by_cases hminus : ∃ ds, s = '-' :: ds
  · obtain ⟨ds, rfl⟩ := hminus
    rw [signed?_minus, ← hwords]
    constructor
    · rintro ⟨n, hn, hle, rfl⟩
      exact ⟨.minus hn, by omega, by omega⟩
    · rintro ⟨hsigned, hlow, -⟩
      cases hsigned with
      | plain hn => exact absurd hn (not_decimal_cons (by decide))
      | minus hn => exact ⟨_, hn, by omega, rfl⟩
  · rw [signed?_of_ne_minus (not_exists.mp hminus), ← hwords]
    by_cases hplus : ∃ ds, s = '+' :: ds
    · obtain ⟨ds, rfl⟩ := hplus
      simp only [unsigned?_plus]
      constructor
      · rintro ⟨n, ⟨hn, hle⟩, rfl⟩
        exact ⟨.plus hn, by omega, by omega⟩
      · rintro ⟨hsigned, -, hhigh⟩
        cases hsigned with
        | plain hn => exact absurd hn (not_decimal_cons (by decide))
        | plus hn => exact ⟨_, ⟨hn, by omega⟩, rfl⟩
    · simp only [unsigned?_of_ne_plus (not_exists.mp hplus)]
      constructor
      · rintro ⟨n, ⟨hn, hle⟩, rfl⟩
        exact ⟨.plain hn, by omega, by omega⟩
      · rintro ⟨hsigned, -, hhigh⟩
        cases hsigned with
        | plain hn => exact ⟨_, ⟨hn, by omega⟩, rfl⟩
        | plus => exact absurd ⟨_, rfl⟩ hplus
        | minus => exact absurd ⟨_, rfl⟩ hminus

end Crosswalk.Text
