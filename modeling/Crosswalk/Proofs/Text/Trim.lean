/-
  Crosswalk.Proofs.Text.Trim
  ──────────────────────────────────────
  **WHITE SPACE AROUND A TEXT.**

  White space that is put around a text is what `trim` takes off:

    • `trim_blank_append`, `trim_append_blank`: before and behind a text,
    • `trim_append_cons`: what is left of a text with a first and a last
      character that are none,
    • `exists_trim`: nothing else is taken off.
-/
import Mathlib.Data.List.TakeWhile
import Crosswalk.Text.Basic

namespace Crosswalk.Text

variable {s t w : Text} {c d : Char}

/-! ## §1. Blank texts. -/

theorem blank_cons_iff : blank (c :: w) = true ↔ isBlank c = true ∧ blank w = true := by
  simp [blank]

theorem blank_append (hs : blank s = true) (ht : blank t = true) : blank (s ++ t) = true := by
  unfold blank at hs ht ⊢
  rw [List.all_append, hs, ht]
  rfl

/-! ## §2. White space at one end. -/

theorem trimStart_append (h : blank w = true) (s : Text) : trimStart (w ++ s) = trimStart s :=
  List.dropWhile_append_of_pos (List.all_eq_true.mp h)

theorem trimEnd_append (s : Text) (h : blank w = true) : trimEnd (s ++ w) = trimEnd s := by
  have hback : ∀ c ∈ w.reverse, isBlank c = true := by
    intro c hc
    exact List.all_eq_true.mp h c (List.mem_reverse.mp hc)
  unfold trimEnd
  rw [List.reverse_append, List.dropWhile_append_of_pos hback]

theorem trimStart_cons (h : isBlank c = false) (s : Text) : trimStart (c :: s) = c :: s :=
  List.dropWhile_cons_of_neg (by simp [h])

/-- Up to its last character that is no white space a text stays as it is. -/
theorem trimEnd_append_cons (s : Text) (h : isBlank c = false) (t : Text) :
    trimEnd (s ++ c :: t) = s ++ c :: trimEnd t := by
  unfold trimEnd
  rw [List.reverse_append, List.reverse_cons, List.append_assoc, List.dropWhile_append]
  by_cases hblank : (t.reverse.dropWhile isBlank).isEmpty = true
  · have hnil : t.reverse.dropWhile isBlank = [] := List.isEmpty_iff.mp hblank
    rw [if_pos hblank, List.singleton_append, List.dropWhile_cons_of_neg (by simp [h]), hnil]
    simp
  · rw [if_neg hblank]
    simp

/-! ## §3. White space around a text. -/

theorem trim_of_blank (h : blank w = true) : trim w = [] := by
  have hstart : trimStart w = [] := List.dropWhile_eq_nil_iff.mpr (List.all_eq_true.mp h)
  unfold trim
  rw [hstart]
  rfl

/-- **White space before a text is taken off.** -/
theorem trim_blank_append (h : blank w = true) (s : Text) : trim (w ++ s) = trim s := by
  unfold trim
  rw [trimStart_append h]

/-- **White space behind a text is taken off.** -/
theorem trim_append_blank (s : Text) (h : blank w = true) : trim (s ++ w) = trim s := by
  cases hs : blank s with
  | true => rw [trim_blank_append hs, trim_of_blank h, trim_of_blank hs]
  | false =>
      -- some character of the text stays, so the white space is still behind it
      have hstart : trimStart (s ++ w) = trimStart s ++ w := by
        have hsome : ¬ (s.dropWhile isBlank).isEmpty = true := by
          intro hnil
          have hall : ∀ c ∈ s, isBlank c = true :=
            List.dropWhile_eq_nil_iff.mp (List.isEmpty_iff.mp hnil)
          exact absurd (List.all_eq_true.mpr hall) (by simpa [blank] using hs)
        unfold trimStart
        rw [List.dropWhile_append, if_neg hsome]
      unfold trim
      rw [hstart, trimEnd_append _ h]

/-- **A text that begins with one character and holds another one further on**, both no white space,
loses what is around it and the white space at its end. -/
theorem trim_append_cons (hw : blank w = true) (hd : isBlank d = false) (s : Text)
    (hc : isBlank c = false) (t : Text) :
    trim (w ++ (d :: s ++ c :: t)) = d :: s ++ c :: trimEnd t := by
  rw [trim_blank_append hw]
  unfold trim
  rw [List.cons_append, trimStart_cons hd, ← List.cons_append, trimEnd_append_cons _ hc]

theorem exists_trimStart (s : Text) : ∃ w, blank w = true ∧ s = w ++ trimStart s :=
  ⟨s.takeWhile isBlank, List.all_eq_true.mpr fun _ => List.mem_takeWhile_imp,
    List.takeWhile_append_dropWhile.symm⟩

theorem exists_trimEnd (s : Text) : ∃ w, blank w = true ∧ s = trimEnd s ++ w := by
  obtain ⟨w, hw, hs⟩ := exists_trimStart s.reverse
  refine ⟨w.reverse, ?_, ?_⟩
  · rw [blank, List.all_reverse]
    exact hw
  · rw [trimEnd, ← List.reverse_append]
    exact List.reverse_eq_iff.mp hs

/-- **A text is what is left of it with white space around it.** -/
theorem exists_trim (s : Text) :
    ∃ w w', blank w = true ∧ blank w' = true ∧ s = w ++ trim s ++ w' := by
  obtain ⟨w, hw, hstart⟩ := exists_trimStart s
  obtain ⟨w', hw', hend⟩ := exists_trimEnd (trimStart s)
  refine ⟨w, w', hw, hw', ?_⟩
  rw [List.append_assoc, trim, ← hend]
  exact hstart

end Crosswalk.Text
