/-
  Crosswalk.Proofs.Yaml.Character
  ──────────────────────────────────────
  **CHARACTERS THAT ARE WRITTEN AS THEY ARE.**

  What the writer leaves as it is may stand in a text, and is none of the
  breaks of other systems, so that a written text is read as it stands.

    • `isClean_of_isPrintable`: printable characters,
    • `IsPrinted.badOffset?_eq`, `IsPrinted.uniformBreaks_eq`: texts of such characters,
    • `eq_space_of_isBlank`: the only blank that is written is the space.
-/
import Mathlib.Data.List.TakeWhile
import Crosswalk.Yaml.Writer

namespace Crosswalk.Yaml

variable {c : Char} {s t : Text}

/-! ## §1. Characters. -/

/-- A character that may stand in a text, and is none of the breaks of other systems. -/
def IsClean (c : Char) : Prop :=
  isAllowed c = true ∧ c ≠ '\r' ∧ c.toNat ≠ 0x85

theorem isClean_of_isPrintable (h : isPrintable c = true) : IsClean c := by
  unfold isPrintable at h
  simp only [Bool.or_eq_true, Bool.and_eq_true, decide_eq_true_eq, beq_iff_eq, bne_iff_ne] at h
  refine ⟨?_, ?_, ?_⟩
  · unfold isAllowed
    simp only [Bool.or_eq_true, Bool.and_eq_true, decide_eq_true_eq, beq_iff_eq]
    omega
  · rintro rfl
    simp at h
  · omega

theorem isBlank_eq_false : isBlank c = false ↔ c ≠ ' ' ∧ c ≠ '\t' := by
  unfold isBlank
  rw [Bool.or_eq_false_iff, beq_eq_false_iff_ne, beq_eq_false_iff_ne]

/-- The only blank that is written as it is. -/
theorem eq_space_of_isBlank (hprintable : isPrintable c = true) (h : isBlank c = true) :
    c = ' ' := by
  unfold isBlank at h
  rw [Bool.or_eq_true, beq_iff_eq, beq_iff_eq] at h
  obtain rfl | rfl := h
  · rfl
  · exact absurd hprintable (by decide)

theorem not_isBlank_of_isBreak (h : isBreak c = true) : isBlank c = false := by
  rw [isBlank_eq_false]
  refine ⟨?_, ?_⟩
  · rintro rfl
    exact absurd h (by decide)
  · rintro rfl
    exact absurd h (by decide)

theorem isBreak_newline : isBreak '\n' = true := rfl

/-! ## §2. Texts. -/

/-- All characters of a text are printable. -/
def IsPrinted (s : Text) : Prop :=
  ∀ c ∈ s, isPrintable c = true

instance (s : Text) : Decidable (IsPrinted s) :=
  decidable_of_iff (s.all isPrintable = true) List.all_eq_true

theorem isPrinted_nil : IsPrinted [] := fun c hc => by cases hc

theorem IsPrinted.cons (hc : isPrintable c = true) (hs : IsPrinted s) : IsPrinted (c :: s) :=
  List.forall_mem_cons.mpr ⟨hc, hs⟩

theorem IsPrinted.append (hs : IsPrinted s) (ht : IsPrinted t) : IsPrinted (s ++ t) :=
  List.forall_mem_append.mpr ⟨hs, ht⟩

theorem IsPrinted.tail (h : IsPrinted (c :: s)) : IsPrinted s :=
  (List.forall_mem_cons.mp h).2

/-- A printed text has no character that may not stand in it. -/
theorem IsPrinted.badOffset?_eq (h : IsPrinted s) : badOffset? s = none := by
  have hall : s.dropWhile isAllowed = [] := by
    rw [List.dropWhile_eq_nil_iff]
    intro c hc
    exact (isClean_of_isPrintable (h c hc)).1
  unfold badOffset?
  rw [hall]

/-- The breaks of a printed text are uniform already. -/
theorem IsPrinted.uniformBreaks_eq : ∀ {s : Text}, IsPrinted s → uniformBreaks s = s
  | [], _ => rfl
  | c :: s, h => by
      obtain ⟨-, hreturn, hnext⟩ := isClean_of_isPrintable (h c List.mem_cons_self)
      rw [uniformBreaks]
      · rw [if_neg, h.tail.uniformBreaks_eq]
        exact fun heq => heq.elim hreturn hnext
      · intro rest heq
        exact absurd heq hreturn

/-! ## §3. Gaps and lines. -/

/-- Whether a gap is ahead shows in the first character alone. -/
theorem atGap_append_newline (s t : Text) : atGap (s ++ '\n' :: t) = atGap s := by
  cases s with
  | nil => rfl
  | cons c s => rfl

theorem indentation_succ (n : Nat) : indentation (n + 1) = ' ' :: indentation n := rfl

/-- One character further, and then so many. -/
theorem Mark.next_forward (m : Mark) (n : Nat) : m.next.forward n = m.forward (n + 1) := by
  show (⟨m.line, m.column + 1 + n⟩ : Mark) = ⟨m.line, m.column + (n + 1)⟩
  rw [Nat.add_assoc, Nat.add_comm 1]

end Crosswalk.Yaml
