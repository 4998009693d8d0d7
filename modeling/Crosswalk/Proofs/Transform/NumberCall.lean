/-
  Crosswalk.Proofs.Transform.NumberCall
  ──────────────────────────────────────
  **CALLS WITH A NUMBER.**

  Two functions take an argument and a number.  A number in decimal digits is
  an argument by itself, so that a call with it is read as it is written:

    • `isArgument_of_signedDecimal`: numbers are arguments,
    • `numberCall`: the text of a call with a number,
    • `read_substring`, `read_subtractDays`, `read_tooManyDays`: what is read
      from it.
-/
import Crosswalk.Proofs.Text.Numeral
import Crosswalk.Proofs.Text.Steps
import Crosswalk.Proofs.Transform.Written

namespace Crosswalk.Transform

variable {f : Function} {r s y : Text} {c : Char} {n : Nat} {i : Int}

/-! ## §1. Numbers as arguments. -/

/-- Characters that open, close and separate nothing are one argument. -/
theorem isArgument_of_silent (hs : s ≠ []) (hsilent : ∀ c ∈ s, isSilent c = true)
    (hcomma : ',' ∉ s) (hblank : ∀ c ∈ s, Text.isBlank c = false) : IsArgument s where
  toEnclosed := enclosed_silent hsilent
  whole := by
    intro front back hfront htop
    rw [hfront] at hcomma
    exact hcomma (List.mem_append_right front List.mem_cons_self)
  some := hs
  trimmed := Text.trim_eq_self hblank

/-- The characters of numbers are the digits and two signs. -/
theorem char_of_signedDecimal (h : Text.SignedDecimal y i) :
    y ≠ [] ∧ ∀ c ∈ y, c.isDigit = true ∨ c = '+' ∨ c = '-' := by
  have hdigits : ∀ {s n}, Text.Decimal s n → ∀ c ∈ s, c.isDigit = true ∨ c = '+' ∨ c = '-' := by
    intro s n hs c hc
    exact .inl (hs.digits c hc)
  cases h with
  | plain hy => exact ⟨hy.some, hdigits hy⟩
  | plus hy => exact ⟨List.cons_ne_nil _ _, List.forall_mem_cons.mpr ⟨by decide, hdigits hy⟩⟩
  | minus hy => exact ⟨List.cons_ne_nil _ _, List.forall_mem_cons.mpr ⟨by decide, hdigits hy⟩⟩

theorem isSilent_of_isDigit (hc : c.isDigit = true) :
    isSilent c = true ∧ c ≠ ',' ∧ Text.isBlank c = false := by
  -- a digit is none of the characters in question, and those are not digits
  have hne : ∀ k : Char, k.isDigit = false → c ≠ k := by
    intro k hk h
    rw [h, hk] at hc
    cases hc
  have hquote : isQuote c = false := by
    simp [isQuote, hne '\'' (by decide), hne '"' (by decide)]
  refine ⟨isSilent_iff.mpr ⟨hquote, hne '(' (by decide), hne ')' (by decide)⟩,
    hne ',' (by decide), ?_⟩
  obtain ⟨hlow, hhigh⟩ := Bool.and_eq_true_iff.mp hc
  have hrange : 0x30 ≤ c.toNat ∧ c.toNat ≤ 0x39 := ⟨of_decide_eq_true hlow, of_decide_eq_true hhigh⟩
  rw [Bool.eq_false_iff]
  intro hblank
  simp only [Text.isBlank, Bool.or_eq_true, Bool.and_eq_true, decide_eq_true_eq, beq_iff_eq]
    at hblank
  omega

/-- **A number is one argument.** -/
theorem isArgument_of_signedDecimal (h : Text.SignedDecimal y i) : IsArgument y := by
  obtain ⟨hsome, hchars⟩ := char_of_signedDecimal h
  have hplain : ∀ c ∈ y, isSilent c = true ∧ c ≠ ',' ∧ Text.isBlank c = false := by
    intro c hc
    rcases hchars c hc with hdigit | rfl | rfl
    · exact isSilent_of_isDigit hdigit
    · decide
    · decide
  exact isArgument_of_silent hsome (fun c hc => (hplain c hc).1)
    (fun hcomma => (hplain ',' hcomma).2.1 rfl) fun c hc => (hplain c hc).2.2

/-! ## §2. What is read. -/

/-- The text of a call with an argument and a number. -/
def numberCall (f : Function) (r y : Text) : Text :=
  f.name ++ '(' :: (r ++ ',' :: ' ' :: y ++ [')'])

/-- Nothing around the arguments. -/
def plainLayout : Layout :=
  ⟨[], [], [], rfl, rfl⟩

theorem numberCall_eq (f : Function) (hr : IsArgument r) (hy : IsArgument y) : numberCall f r y
    = written f plainLayout [⟨[], r, [], rfl, rfl, hr⟩, ⟨[' '], y, [], by decide, rfl, hy⟩] := by
  simp [numberCall, written, slotsText, plainLayout, Slot.text, List.intercalate]

/-- **A call with a number is read with its argument and the number.** -/
theorem read_substring (hr : IsArgument r) (hy : Text.SignedDecimal y i) (hlow : -2 ^ 63 ≤ i)
    (hhigh : i < 2 ^ 63) : Expression.read (numberCall .substring r y) = .substring r i := by
  have hnumber := isArgument_of_signedDecimal hy
  rw [numberCall_eq _ hr hnumber, read_writtenCall_two (by decide) _ _ _ (by simp)]
  exact (ofTwo?_substring hr.some hnumber.some).mpr ⟨i, ⟨hy, hlow, hhigh⟩, rfl⟩

theorem read_subtractDays (hr : IsArgument r) (hy : Text.Decimal y n) (hn : n < 2 ^ 63) :
    Expression.read (numberCall .subtractDays r y) = .subtractDays r n := by
  have hnumber := isArgument_of_signedDecimal (.plain hy)
  rw [numberCall_eq _ hr hnumber, read_writtenCall_two (by decide) _ _ _ (by simp)]
  exact (ofTwo?_subtractDays hr.some hnumber.some).mpr ⟨n, ⟨hy, hn⟩, rfl⟩

/-- A number of days that does not fit is no number of days. -/
theorem read_tooManyDays (hr : IsArgument r) (hy : Text.Decimal y n) (hn : 2 ^ 63 ≤ n) :
    Expression.read (numberCall .subtractDays r y) = .malformed .subtractDays := by
  have hnumber := isArgument_of_signedDecimal (.plain hy)
  -- the digits would have to stand for another number, one that fits
  have hnone : ofTwo? .subtractDays r y = none := by
    rw [Option.eq_none_iff_forall_ne_some]
    intro e he
    obtain ⟨m, ⟨hm, hlt⟩, -⟩ := (ofTwo?_subtractDays hr.some hnumber.some).mp he
    rw [hm.unique hy] at hlt
    omega
  rw [numberCall_eq _ hr hnumber, read_writtenCall_eq (by decide) _ (List.cons_ne_nil _ _)]
  show (ofTwo? .subtractDays r y).getD _ = _
  rw [hnone]
  rfl

end Crosswalk.Transform
