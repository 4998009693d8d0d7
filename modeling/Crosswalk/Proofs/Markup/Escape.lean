/-
  Crosswalk.Proofs.Markup.Escape
  ──────────────────────────────────────
  **ESCAPED TEXT.**

  What the writer makes of a text or of an attribute value, seen from the
  reader's side:

    • `unescape_escapeText` and `unescape_escapeValue`: reading gives back
      what was escaped,
    • `not_mem_escapeText` and `not_mem_escapeValue`: the characters that end
      a run of text or a value do not stand in what was escaped,
    • `escapeText_cut`: escaped text is cut at a plain character where the
      text itself is cut,
    • `unescape_append`: a text that can be read by itself is read by itself
      in front of any other.
-/
import Mathlib.Data.List.Basic
import Crosswalk.Markup.Escape
import Crosswalk.Proofs.Text.Search

namespace Crosswalk.Markup

/-! ## §1. Reading one escaped character. -/

/-- A character other than the ampersand is read as it stands. -/
theorem unescape_go_plain {c : Char} (hc : c ≠ '&') (pos : Nat) (s : Text) :
    unescape.go none pos (c :: s) = (unescape.go none (pos + c.utf8Size) s).map (c :: ·) := by
  rw [unescape.go, if_neg hc]

/-- What reading adds in front of a text that follows. -/
def Prepends (pre : Text) (c : Char) : Prop :=
  ∀ pos s, ∃ pos', unescape.go none pos (pre ++ s) = (unescape.go none pos' s).map (c :: ·)

theorem prepends_escapeTextChar (c : Char) : Prepends (escapeTextChar c) c := by
  intro pos s
  unfold escapeTextChar
  split
  next h => subst h; exact ⟨_, rfl⟩
  split
  next h => subst h; exact ⟨_, rfl⟩
  split
  next h => subst h; exact ⟨_, rfl⟩
  next h => exact ⟨_, unescape_go_plain h pos s⟩

theorem prepends_escapeValueChar (c : Char) : Prepends (escapeValueChar c) c := by
  intro pos s
  unfold escapeValueChar
  split
  next h => subst h; exact ⟨_, rfl⟩
  split
  next h => subst h; exact ⟨_, rfl⟩
  next => exact prepends_escapeTextChar c pos s

/-! ## §2. Reading what was written. -/

/-- A text escaped character by character is read back. -/
theorem unescape_go_flatMap {esc : Char → Text} (h : ∀ c, Prepends (esc c) c) :
    ∀ (s : Text) (pos : Nat), unescape.go none pos (s.flatMap esc) = .ok s
  | [], pos => rfl
  | c :: s, pos => by
      -- places differ, since references are longer than what they stand for
      rw [List.flatMap_cons]
      obtain ⟨pos', hc⟩ := h c pos (s.flatMap esc)
      rw [hc, unescape_go_flatMap h s pos']
      rfl

/-- **Escaped element text is read back.** -/
theorem unescape_escapeText (s : Text) : unescape (escapeText s) = .ok s :=
  unescape_go_flatMap prepends_escapeTextChar s 0

/-- **An escaped attribute value is read back.** -/
theorem unescape_escapeValue (s : Text) : unescape (escapeValue s) = .ok s :=
  unescape_go_flatMap prepends_escapeValueChar s 0

/-! ## §3. Characters that escaping leaves out. -/

theorem not_mem_escapeTextChar {x : Char} (hx : x = '<' ∨ x = '>') (c : Char) :
    x ∉ escapeTextChar c := by
  unfold escapeTextChar
  rcases hx with rfl | rfl <;> (split_ifs <;> simp_all [eq_comm])

theorem not_mem_escapeValueChar {x : Char} (hx : x = '<' ∨ x = '>' ∨ x = '"') (c : Char) :
    x ∉ escapeValueChar c := by
  unfold escapeValueChar
  split
  next => rcases hx with rfl | rfl | rfl <;> decide
  split
  next => rcases hx with rfl | rfl | rfl <;> decide
  next h =>
    rcases hx with hx | hx | rfl
    · exact not_mem_escapeTextChar (.inl hx) c
    · exact not_mem_escapeTextChar (.inr hx) c
    · unfold escapeTextChar
      split_ifs <;> simp_all [eq_comm]

/-- Escaped text holds no angle bracket. -/
theorem not_mem_escapeText {x : Char} (hx : x = '<' ∨ x = '>') (s : Text) : x ∉ escapeText s := by
  intro h
  obtain ⟨c, _, hc⟩ := List.mem_flatMap.mp h
  exact not_mem_escapeTextChar hx c hc

/-- An escaped value holds no angle bracket and no double quote. -/
theorem not_mem_escapeValue {x : Char} (hx : x = '<' ∨ x = '>' ∨ x = '"') (s : Text) :
    x ∉ escapeValue s := by
  intro h
  obtain ⟨c, _, hc⟩ := List.mem_flatMap.mp h
  exact not_mem_escapeValueChar hx c hc

theorem escapeText_eq_nil {s : Text} : escapeText s = [] ↔ s = [] := by
  cases s with
  | nil => simp [escapeText]
  | cons c s =>
      have hc : escapeTextChar c ≠ [] := by
        unfold escapeTextChar
        split_ifs <;> simp
      simp [escapeText, List.flatMap_cons, hc]

/-! ## §4. Pieces of escaped text. -/

theorem escapeText_append (s t : Text) : escapeText (s ++ t) = escapeText s ++ escapeText t :=
  List.flatMap_append

theorem escapeValue_append (s t : Text) : escapeValue (s ++ t) = escapeValue s ++ escapeValue t :=
  List.flatMap_append

/-- What is escaped character by character is cut where the text is cut, at a character that comes
from itself alone. -/
theorem flatMap_cut {esc : Char → Text} {c : Char} (hc : ∀ d, c ∈ esc d → esc d = [c] ∧ d = c) :
    ∀ {s x y : Text}, s.flatMap esc = x ++ c :: y →
      ∃ s₁ s₂, s = s₁ ++ c :: s₂ ∧ s₁.flatMap esc = x ∧ s₂.flatMap esc = y
  | [], x, y, h => absurd h.symm (by simp)
  | d :: s, x, y, h => by
      rcases Text.cut_append (a := esc d) (b := s.flatMap esc) h with ⟨y', hy, hd⟩ | ⟨x', hx, hs⟩
      · have hmem : c ∈ esc d := by rw [hd]; simp
        obtain ⟨hone, rfl⟩ := hc d hmem
        rw [hone] at hd
        cases x with
        | nil =>
            have hnil : y' = [] := (List.cons.inj hd).2.symm
            exact ⟨[], s, rfl, rfl, by rw [hy, hnil]; rfl⟩
        | cons e x => exact absurd (List.cons.inj hd).2.symm (by simp)
      · obtain ⟨s₁, s₂, rfl, h₁, h₂⟩ := flatMap_cut hc hs
        exact ⟨d :: s₁, s₂, rfl, by rw [hx, List.flatMap_cons, h₁], h₂⟩

/-- The characters of all references that are written. -/
def referenceChars : Text := "&apostqulgm;".toList

theorem eq_of_mem_escapeTextChar {c : Char} (hc : c ∉ referenceChars) (d : Char)
    (h : c ∈ escapeTextChar d) : escapeTextChar d = [c] ∧ d = c := by
  unfold referenceChars at hc
  unfold escapeTextChar at h ⊢
  split_ifs at h ⊢ <;> simp_all

theorem eq_of_mem_escapeValueChar {c : Char} (hc : c ∉ referenceChars) (d : Char)
    (h : c ∈ escapeValueChar d) : escapeValueChar d = [c] ∧ d = c := by
  unfold escapeValueChar at h ⊢
  unfold referenceChars at hc
  by_cases h₁ : d = '\''
  · rw [if_pos h₁] at h
    simp_all
  by_cases h₂ : d = '"'
  · rw [if_neg h₁, if_pos h₂] at h
    simp_all
  · rw [if_neg h₁, if_neg h₂] at h ⊢
    exact eq_of_mem_escapeTextChar hc d h

/-- **Escaped text is cut where the text is cut**, at a character of no reference. -/
theorem escapeText_cut {c : Char} (hc : c ∉ referenceChars) {s x y : Text}
    (h : escapeText s = x ++ c :: y) :
    ∃ s₁ s₂, s = s₁ ++ c :: s₂ ∧ escapeText s₁ = x ∧ escapeText s₂ = y :=
  flatMap_cut (eq_of_mem_escapeTextChar hc) h

theorem escapeValue_cut {c : Char} (hc : c ∉ referenceChars) {s x y : Text}
    (h : escapeValue s = x ++ c :: y) :
    ∃ s₁ s₂, s = s₁ ++ c :: s₂ ∧ escapeValue s₁ = x ∧ escapeValue s₂ = y :=
  flatMap_cut (eq_of_mem_escapeValueChar hc) h

/-! ## §5. What escaping leaves as it is. -/

theorem escapeText_eq_self {s : Text} (h : ∀ c ∈ s, escapeTextChar c = [c]) : escapeText s = s := by
  unfold escapeText
  rw [List.flatMap_congr h]
  simp

theorem escapeValue_eq_self {s : Text} (h : ∀ c ∈ s, escapeValueChar c = [c]) :
    escapeValue s = s := by
  unfold escapeValue
  rw [List.flatMap_congr h]
  simp

theorem escapeTextChar_eq {c : Char} (h : c ∉ "<>&".toList) : escapeTextChar c = [c] := by
  unfold escapeTextChar
  split_ifs <;> simp_all

theorem escapeValueChar_eq {c : Char} (h : c ∉ "<>&\"'".toList) : escapeValueChar c = [c] := by
  unfold escapeValueChar
  split_ifs <;> simp_all [escapeTextChar_eq]

/-- Without an ampersand in it an escaped text is the text itself. -/
theorem escapeValue_of_not_mem {s : Text} (h : '&' ∉ escapeValue s) : escapeValue s = s := by
  refine escapeValue_eq_self fun c hc => ?_
  have hamp : '&' ∉ escapeValueChar c := fun hmem => h (List.mem_flatMap.mpr ⟨c, hc, hmem⟩)
  unfold escapeValueChar escapeTextChar at hamp ⊢
  split_ifs at hamp ⊢ <;> first | rfl | exact absurd List.mem_cons_self hamp

theorem length_le_escapeValue (s : Text) : s.length ≤ (escapeValue s).length := by
  have hone : ∀ c, 1 ≤ (escapeValueChar c).length := by
    intro c
    unfold escapeValueChar escapeTextChar
    split_ifs <;> simp
  induction s with
  | nil => exact Nat.le_refl _
  | cons c s ih =>
      show s.length + 1 ≤ (escapeValueChar c ++ escapeValue s).length
      rw [List.length_append]
      have hc := hone c
      omega

/-! ## §6. Texts side by side. -/

/-- What a reference stands for does not depend on its place. -/
theorem reference_of_place {first : Nat} {name : Text} {c : Char}
    (h : reference first name = .ok c) (first' : Nat) : reference first' name = .ok c := by
  have hname : (reference first name).toOption = (reference first' name).toOption := by
    unfold reference
    split
    next => rfl
    next => cases namedReference? name <;> rfl
  rw [h] at hname
  cases hc : reference first' name with
  | error f => rw [hc] at hname; exact absurd hname (by simp [Except.toOption])
  | ok d => rw [hc] at hname; exact congrArg Except.ok (Option.some.inj hname).symm

/-- Reading goes on behind the semicolon of a reference. -/
theorem unescape_go_close (seen : Text) (pos : Nat) (s u : Text) :
    unescape.go (some seen) pos (';' :: s) = .ok u
      ↔ ∃ c v, reference (pos - Text.byteSize seen) seen.reverse = .ok c
        ∧ unescape.go none (pos + 1) s = .ok v ∧ u = c :: v := by
  rw [unescape.go, if_neg (by decide), if_pos rfl]
  cases hc : reference (pos - Text.byteSize seen) seen.reverse with
  | error f => simp [bind, Except.bind]
  | ok c =>
      cases hv : unescape.go none (pos + 1) s with
      | error f => simp [bind, Except.bind]
      | ok v => simp [bind, Except.bind, pure, Except.pure, eq_comm]

theorem unescape_go_cons {c : Char} (hc : c ≠ '&') (pos : Nat) (s u : Text) :
    unescape.go none pos (c :: s) = .ok u
      ↔ ∃ v, unescape.go none (pos + c.utf8Size) s = .ok v ∧ u = c :: v := by
  rw [unescape_go_plain hc]
  cases unescape.go none (pos + c.utf8Size) s with
  | error f => simp [Except.map]
  | ok v => simp [Except.map, eq_comm]

/-- A text whose references can be read is read alike at every place. -/
theorem unescape_go_of_place : ∀ (s : Text) {opened : Option Text} {pos : Nat} {u : Text},
    unescape.go opened pos s = .ok u → ∀ pos', unescape.go opened pos' s = .ok u
  | [], none, _, _, h, _ => h
  | [], some _, _, _, h, _ => absurd h (by simp [unescape.go])
  | c :: s, none, pos, u, h, pos' => by
      by_cases hc : c = '&'
      · rw [unescape.go, if_pos hc] at h ⊢
        exact unescape_go_of_place s h _
      · obtain ⟨v, hv, rfl⟩ := (unescape_go_cons hc pos s u).mp h
        exact (unescape_go_cons hc pos' s _).mpr ⟨v, unescape_go_of_place s hv _, rfl⟩
  | c :: s, some seen, pos, u, h, pos' => by
      by_cases hamp : c = '&'
      · rw [unescape.go, if_pos hamp] at h
        exact absurd h (by simp)
      · by_cases hend : c = ';'
        · subst hend
          obtain ⟨d, v, hd, hv, rfl⟩ := (unescape_go_close seen pos s u).mp h
          exact (unescape_go_close seen pos' s _).mpr
            ⟨d, v, reference_of_place hd _, unescape_go_of_place s hv _, rfl⟩
        · rw [unescape.go, if_neg hamp, if_neg hend] at h ⊢
          exact unescape_go_of_place s h _

/-- A text whose references can be read is read by itself in front of another one. -/
theorem unescape_go_append : ∀ (s : Text) {opened : Option Text} {pos : Nat} {u : Text},
    unescape.go opened pos s = .ok u → ∀ (pos' : Nat) (t w : Text),
      unescape.go opened pos' (s ++ t) = .ok w ↔ ∃ v, unescape t = .ok v ∧ w = u ++ v
  | [], none, _, _, h, pos', t, w => by
      obtain rfl := Except.ok.inj h
      refine ⟨fun ht => ⟨w, unescape_go_of_place t ht 0, rfl⟩, ?_⟩
      rintro ⟨v, hv, rfl⟩
      exact unescape_go_of_place t hv pos'
  | [], some _, _, _, h, _, _, _ => absurd h (by simp [unescape.go])
  | c :: s, none, pos, u, h, pos', t, w => by
      by_cases hc : c = '&'
      · rw [unescape.go, if_pos hc] at h
        rw [List.cons_append, unescape.go, if_pos hc]
        exact unescape_go_append s h _ t w
      · obtain ⟨u', hu', rfl⟩ := (unescape_go_cons hc pos s u).mp h
        have ih := unescape_go_append s hu' (pos' + c.utf8Size) t
        rw [List.cons_append, unescape_go_cons hc]
        constructor
        · rintro ⟨w', hw', rfl⟩
          obtain ⟨v, hv, rfl⟩ := (ih w').mp hw'
          exact ⟨v, hv, rfl⟩
        · rintro ⟨v, hv, rfl⟩
          exact ⟨u' ++ v, (ih _).mpr ⟨v, hv, rfl⟩, rfl⟩
  | c :: s, some seen, pos, u, h, pos', t, w => by
      by_cases hamp : c = '&'
      · rw [unescape.go, if_pos hamp] at h
        exact absurd h (by simp)
      · by_cases hend : c = ';'
        · subst hend
          obtain ⟨d, u', hd, hu', rfl⟩ := (unescape_go_close seen pos s u).mp h
          have ih := unescape_go_append s hu' (pos' + 1) t
          rw [List.cons_append, unescape_go_close]
          constructor
          · rintro ⟨d', w', hd', hw', rfl⟩
            obtain ⟨v, hv, rfl⟩ := (ih w').mp hw'
            have hsame := (reference_of_place hd _).symm.trans hd'
            obtain rfl := Except.ok.inj hsame
            exact ⟨v, hv, rfl⟩
          · rintro ⟨v, hv, rfl⟩
            exact ⟨d, u' ++ v, reference_of_place hd _, (ih _).mpr ⟨v, hv, rfl⟩, rfl⟩
        · rw [unescape.go, if_neg hamp, if_neg hend] at h
          rw [List.cons_append, unescape.go, if_neg hamp, if_neg hend]
          exact unescape_go_append s h _ t w

/-- **References are read text by text.** -/
theorem unescape_append {s u : Text} (h : unescape s = .ok u) (t w : Text) :
    unescape (s ++ t) = .ok w ↔ ∃ v, unescape t = .ok v ∧ w = u ++ v :=
  unescape_go_append s h 0 t w

end Crosswalk.Markup
