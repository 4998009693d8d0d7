/-
  Crosswalk.Proofs.Transform.Nesting
  ──────────────────────────────────────
  **QUOTES AND PARENTHESES OF A TEXT.**

  What a scan knows at a place of a text is the mark and the number of open
  parentheses behind the text before it.  Both are folds, so they go on from
  one part of a text to the next:

    • `over_append`, `nestingFrom_append`, `depthFrom_append`: part by part,
    • `Mark.Rested`: behind a comma or white space outside of quotes a scan
      goes on as it begins,
    • `isSilent`: characters that open and close nothing,
    • `depthFrom_eq`: the number of open parentheses is the difference of
      opening and closing ones where none closes too many,
    • `Enclosed`: texts that leave no quote and no parenthesis open, with
      what keeps them so.
-/
import Mathlib.Data.List.Infix
import Crosswalk.Proofs.Text.Trim
import Crosswalk.Transform.Argument

namespace Crosswalk.Transform

variable {m : Mark} {d : Nat} {c : Char} {s t w : Text}

/-! ## §1. The mark behind a text. -/

/-- The mark behind a text. -/
def Mark.over (m : Mark) (s : Text) : Mark :=
  s.foldl Mark.step m

@[simp] theorem Mark.over_nil (m : Mark) : m.over [] = m := rfl

@[simp] theorem Mark.over_cons (m : Mark) (c : Char) (s : Text) :
    m.over (c :: s) = (m.step c).over s := rfl

theorem Mark.over_append (m : Mark) (s t : Text) : m.over (s ++ t) = (m.over s).over t :=
  List.foldl_append

/-- What counts of a character where quotes are closed: `1` for a parenthesis that opens, `-1` for
one that closes. -/
def Mark.weight (m : Mark) (c : Char) : Int :=
  if m.outside && c = '(' then 1 else if m.outside && c = ')' then -1 else 0

/-- The parentheses that a text opens, less those that it closes. -/
def nestingFrom (m : Mark) : Text → Int
  | [] => 0
  | c :: s => m.weight c + nestingFrom (m.step c) s

/-- The same from the beginning. -/
def nesting (s : Text) : Int :=
  nestingFrom .initial s

/-- The number of open parentheses behind a text, as a scan counts it. -/
def depthFrom (m : Mark) (d : Nat) : Text → Nat
  | [] => d
  | c :: s => depthFrom (m.step c) (depthAfter m d c) s

theorem nestingFrom_append (m : Mark) (s t : Text) :
    nestingFrom m (s ++ t) = nestingFrom m s + nestingFrom (m.over s) t := by
  induction s generalizing m with
  | nil => simp [nestingFrom]
  | cons c s ih =>
      show m.weight c + nestingFrom (m.step c) (s ++ t) = m.weight c + _ + _
      rw [ih, Int.add_assoc]
      rfl

theorem nesting_append (s t : Text) :
    nesting (s ++ t) = nesting s + nestingFrom (Mark.initial.over s) t :=
  nestingFrom_append .initial s t

theorem depthFrom_append (m : Mark) (d : Nat) (s t : Text) :
    depthFrom m d (s ++ t) = depthFrom (m.over s) (depthFrom m d s) t := by
  induction s generalizing m d with
  | nil => rfl
  | cons c s ih => exact ih (m.step c) (depthAfter m d c)

/-! ## §2. Marks that are as good as none. -/

/-- Nothing behind the mark depends on what is before it. -/
structure Mark.Rested (m : Mark) : Prop where
  quote : m.quote = none
  last : m.last ≠ '\\'

theorem Mark.rested_initial : Mark.initial.Rested :=
  ⟨rfl, by decide⟩

/-- Outside of quotes a character that is neither quote nor backslash brings a mark to rest. -/
theorem Mark.rested_step (hm : m.outside = true) (hquote : isQuote c = false) (hc : c ≠ '\\') :
    (m.step c).Rested := by
  have hnone : m.quote = none := Option.isNone_iff_eq_none.mp hm
  refine ⟨?_, hc⟩
  simp [Mark.step, hnone, hquote]

theorem Mark.rested_comma (hm : m.outside = true) : (m.step ',').Rested :=
  Mark.rested_step hm (by decide) (by decide)

theorem Mark.Rested.outside (h : m.Rested) : m.outside = true := by
  simp [Mark.outside, h.quote]

theorem Mark.Rested.step_eq (h : m.Rested) (c : Char) : m.step c = Mark.initial.step c := by
  simp [Mark.step, h.quote, h.last, Mark.initial]

/-- A scan goes on from such a mark as from the beginning. -/
theorem Mark.Rested.outside_over (h : m.Rested) (s : Text) :
    (m.over s).outside = (Mark.initial.over s).outside := by
  cases s with
  | nil => exact h.outside
  | cons c s => rw [Mark.over_cons, h.step_eq, Mark.over_cons]

theorem Mark.Rested.nestingFrom_eq (h : m.Rested) (s : Text) : nestingFrom m s = nesting s := by
  cases s with
  | nil => rfl
  | cons c s =>
      have hout : m.outside = Mark.initial.outside := h.outside
      show m.weight c + nestingFrom (m.step c) s = Mark.initial.weight c + _
      rw [h.step_eq, Mark.weight, Mark.weight, hout]

/-! ## §3. Characters that open and close nothing. -/

/-- The character is no quote and no parenthesis. -/
def isSilent (c : Char) : Bool :=
  !isQuote c && c != '(' && c != ')'

theorem isSilent_iff : isSilent c = true ↔ isQuote c = false ∧ c ≠ '(' ∧ c ≠ ')' := by
  simp [isSilent, and_assoc]

theorem Mark.outside_step_silent (hm : m.outside = true) (hc : isSilent c = true) :
    (m.step c).outside = true := by
  have hnone : m.quote = none := Option.isNone_iff_eq_none.mp hm
  simp [Mark.outside, Mark.step, hnone, (isSilent_iff.mp hc).1]

theorem outside_over_silent (hm : m.outside = true) (hw : ∀ c ∈ w, isSilent c = true) :
    (m.over w).outside = true := by
  induction w generalizing m with
  | nil => exact hm
  | cons c w ih =>
      obtain ⟨hc, hw⟩ := List.forall_mem_cons.mp hw
      exact ih (Mark.outside_step_silent hm hc) hw

theorem nestingFrom_silent (m : Mark) (hw : ∀ c ∈ w, isSilent c = true) :
    nestingFrom m w = 0 := by
  induction w generalizing m with
  | nil => rfl
  | cons c w ih =>
      obtain ⟨hc, hw⟩ := List.forall_mem_cons.mp hw
      obtain ⟨-, hopen, hclose⟩ := isSilent_iff.mp hc
      have hweight : m.weight c = 0 := by simp [Mark.weight, hopen, hclose]
      show m.weight c + nestingFrom (m.step c) w = 0
      rw [hweight, ih (m.step c) hw, Int.add_zero]

/-! ## §4. White space. -/

/-- White space is none of the characters that a scan looks at. -/
theorem ne_of_isBlank {k : Char} (h : Text.isBlank c = true) (hk : Text.isBlank k = false) :
    c ≠ k := by
  rintro rfl
  rw [h] at hk
  cases hk

theorem isQuote_of_isBlank (h : Text.isBlank c = true) : isQuote c = false := by
  simp [isQuote, ne_of_isBlank h (k := '\'') (by decide), ne_of_isBlank h (k := '"') (by decide)]

theorem Mark.rested_blank (hm : m.outside = true) (hc : Text.isBlank c = true) :
    (m.step c).Rested :=
  Mark.rested_step hm (isQuote_of_isBlank hc) (ne_of_isBlank hc (by decide))

theorem depthAfter_blank (m : Mark) (d : Nat) (h : Text.isBlank c = true) :
    depthAfter m d c = d := by
  simp [depthAfter, ne_of_isBlank h (k := '(') (by decide),
    ne_of_isBlank h (k := ')') (by decide)]

/-- White space opens and closes nothing. -/
theorem silent_of_blank (hw : Text.blank w = true) : ∀ c ∈ w, isSilent c = true := by
  intro c hc
  have hblank : Text.isBlank c = true := List.all_eq_true.mp hw c hc
  exact isSilent_iff.mpr ⟨isQuote_of_isBlank hblank, ne_of_isBlank hblank (by decide),
    ne_of_isBlank hblank (by decide)⟩

theorem outside_over_blank (hm : m.outside = true) (hw : Text.blank w = true) :
    (m.over w).outside = true :=
  outside_over_silent hm (silent_of_blank hw)

theorem Mark.Rested.over_blank (h : m.Rested) (hw : Text.blank w = true) : (m.over w).Rested := by
  induction w generalizing m with
  | nil => exact h
  | cons c w ih =>
      obtain ⟨hc, hw⟩ := Text.blank_cons_iff.mp hw
      exact ih (Mark.rested_blank h.outside hc) hw

theorem depthFrom_blank (m : Mark) (d : Nat) (hw : Text.blank w = true) :
    depthFrom m d w = d := by
  induction w generalizing m with
  | nil => rfl
  | cons c w ih =>
      obtain ⟨hc, hw⟩ := Text.blank_cons_iff.mp hw
      show depthFrom (m.step c) (depthAfter m d c) w = d
      rw [depthAfter_blank m d hc]
      exact ih (m.step c) hw

/-! ## §5. Open parentheses. -/

theorem depthAfter_eq (h : 0 ≤ d + m.weight c) : (depthAfter m d c : Int) = d + m.weight c := by
  unfold depthAfter
  unfold Mark.weight at h ⊢
  by_cases hopen : (m.outside && c = '(') = true
  · rw [if_pos hopen, if_pos hopen]
    omega
  · rw [if_neg hopen] at h ⊢
    rw [if_neg hopen]
    by_cases hclose : (m.outside && c = ')') = true
    · rw [if_pos hclose] at h ⊢
      rw [if_pos hclose]
      omega
    · rw [if_neg hclose, if_neg hclose]
      omega

/-- **Where none closes too many, the number of open parentheses is that of the opening ones less
that of the closing ones.** -/
theorem depthFrom_eq (h : ∀ front, front <+: s → 0 ≤ d + nestingFrom m front) :
    (depthFrom m d s : Int) = d + nestingFrom m s := by
  induction s generalizing m d with
  | nil => simp [depthFrom, nestingFrom]
  | cons c s ih =>
      have hfirst : (depthAfter m d c : Int) = d + m.weight c :=
        depthAfter_eq (by simpa [nestingFrom] using h [c] (by simp))
      have hrest : ∀ front, front <+: s →
          0 ≤ (depthAfter m d c : Int) + nestingFrom (m.step c) front := by
        intro front hfront
        rw [hfirst, Int.add_assoc]
        exact h (c :: front) (by simpa using hfront)
      show (depthFrom (m.step c) (depthAfter m d c) s : Int) = d + (m.weight c + _)
      rw [ih hrest, hfirst, Int.add_assoc]

/-! ## §6. Texts that leave nothing open. -/

/-- All quotes of a text are closed, and its parentheses match: in no part at its front more of them
close than open, and in all of it as many. -/
structure Enclosed (s : Text) : Prop where
  outside : (Mark.initial.over s).outside = true
  even : nesting s = 0
  nested : ∀ front, front <+: s → 0 ≤ nesting front

theorem enclosed_iff : Enclosed s ↔ (Mark.initial.over s).outside = true ∧ nesting s = 0
    ∧ ∀ front ∈ s.inits, 0 ≤ nesting front := by
  simp only [List.mem_inits]
  exact ⟨fun h => ⟨h.outside, h.even, h.nested⟩, fun h => ⟨h.1, h.2.1, h.2.2⟩⟩

instance : Decidable (Enclosed s) :=
  decidable_of_iff _ enclosed_iff.symm

/-- The place behind a text is outside of all quotes and parentheses. -/
structure TopLevel (front : Text) : Prop where
  outside : (Mark.initial.over front).outside = true
  even : nesting front = 0

theorem Enclosed.topLevel (h : Enclosed s) : TopLevel s :=
  ⟨h.outside, h.even⟩

/-- A text that leaves nothing open stays so with what opens and closes as much behind it. -/
theorem Enclosed.extend (hs : Enclosed s) (hout : ((Mark.initial.over s).over t).outside = true)
    (heven : nestingFrom (Mark.initial.over s) t = 0)
    (hnested : ∀ more, more <+: t → 0 ≤ nestingFrom (Mark.initial.over s) more) :
    Enclosed (s ++ t) where
  outside := by
    rw [Mark.over_append]
    exact hout
  even := by
    rw [nesting_append, hs.even, heven, Int.add_zero]
  nested := by
    rintro front ⟨back, hback⟩
    -- the part at the front ends within the first text, or within the second one
    rcases List.append_eq_append_iff.mp hback with ⟨more, rfl, -⟩ | ⟨more, rfl, hmore⟩
    · exact hs.nested front (List.prefix_append front more)
    · rw [nesting_append, hs.even, Int.zero_add]
      exact hnested more ⟨back, hmore.symm⟩

/-- **Two texts that leave nothing open make one**, when the mark between them is at rest. -/
theorem Enclosed.append (hs : Enclosed s) (hrest : (Mark.initial.over s).Rested) (ht : Enclosed t) :
    Enclosed (s ++ t) := by
  refine hs.extend ?_ ?_ ?_
  · rw [hrest.outside_over]
    exact ht.outside
  · rw [hrest.nestingFrom_eq]
    exact ht.even
  · intro more hmore
    rw [hrest.nestingFrom_eq]
    exact ht.nested more hmore

/-- Where a text that leaves nothing open begins with as many parentheses that open as close, its
rest leaves nothing open either. -/
theorem Enclosed.of_append (h : Enclosed (s ++ t)) (hs : nesting s = 0)
    (hrest : (Mark.initial.over s).Rested) : Enclosed t := by
  have hnesting : ∀ more, nesting (s ++ more) = nesting more := by
    intro more
    rw [nesting_append, hs, Int.zero_add, hrest.nestingFrom_eq]
  refine ⟨?_, ?_, ?_⟩
  · rw [← hrest.outside_over, ← Mark.over_append]
    exact h.outside
  · rw [← hnesting]
    exact h.even
  · intro front hfront
    rw [← hnesting]
    exact h.nested (s ++ front) ((List.prefix_append_right_inj s).mpr hfront)

/-- Characters that open and close nothing change nothing behind a text, also behind a
backslash. -/
theorem Enclosed.append_silent (h : Enclosed s) (hw : ∀ c ∈ w, isSilent c = true) :
    Enclosed (s ++ w) := by
  refine h.extend (outside_over_silent h.outside hw) (nestingFrom_silent _ hw) ?_
  intro more hmore
  exact Int.le_of_eq (nestingFrom_silent _ fun c hc => hw c (hmore.subset hc)).symm

theorem enclosed_nil : Enclosed [] :=
  ⟨rfl, rfl, fun front hfront => by rw [List.prefix_nil.mp hfront]; exact Int.le_refl 0⟩

theorem enclosed_silent (hw : ∀ c ∈ w, isSilent c = true) : Enclosed w :=
  enclosed_nil.append_silent hw

/-- **White space around a text that leaves nothing open.** -/
theorem Enclosed.pad {w' : Text} (hw : Text.blank w = true) (h : Enclosed s)
    (hw' : Text.blank w' = true) : Enclosed (w ++ s ++ w') :=
  ((enclosed_silent (silent_of_blank hw)).append (Mark.rested_initial.over_blank hw)
    h).append_silent (silent_of_blank hw')

end Crosswalk.Transform
