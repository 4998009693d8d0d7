/-
  Crosswalk.Proofs.Transform.Spacing
  ──────────────────────────────────────
  **WHITE SPACE AROUND ARGUMENTS.**

  White space that is put in at the ends of a text, or beside commas at which
  it is cut, goes to the ends of its pieces, where it is taken off again.  One
  thing it can change: an empty piece behind the last comma is no argument,
  and a blank one is an empty argument.

    • `padded_pieces`: what one piece of white space does to the pieces,
    • `Spaced.pieces`: any number of them,
    • `splitArguments_spaced`: the arguments, and exactly when they stay.
-/
import Mathlib.Data.List.Forall2
import Crosswalk.Proofs.Text.Trim
import Crosswalk.Proofs.Transform.Pieces

namespace Crosswalk.Transform

variable {m : Mark} {d : Nat} {s s' w p p' front back : Text} {ps ps' qs : List Text}

/-! ## §1. Pieces with white space around them. -/

/-- The second text is the first one with white space around it. -/
def Padded (p p' : Text) : Prop :=
  ∃ w w', Text.blank w = true ∧ Text.blank w' = true ∧ p' = w ++ p ++ w'

theorem padded_rfl : Padded p p :=
  ⟨[], [], rfl, rfl, by simp⟩

theorem padded_before (hw : Text.blank w = true) (p : Text) : Padded p (w ++ p) :=
  ⟨w, [], hw, rfl, by simp⟩

theorem padded_behind (hw : Text.blank w = true) (p : Text) : Padded p (p ++ w) :=
  ⟨[], w, rfl, hw, by simp⟩

theorem Padded.trans {p'' : Text} (h : Padded p p') (h' : Padded p' p'') : Padded p p'' := by
  obtain ⟨w, w', hw, hw', rfl⟩ := h
  obtain ⟨v, v', hv, hv', rfl⟩ := h'
  exact ⟨v ++ w, w' ++ v', Text.blank_append hv hw, Text.blank_append hw' hv', by simp⟩

theorem Padded.trim_eq (h : Padded p p') : Text.trim p' = Text.trim p := by
  obtain ⟨w, w', hw, hw', rfl⟩ := h
  rw [Text.trim_append_blank _ hw', Text.trim_blank_append hw]

theorem Padded.eq_nil (h : Padded p []) : p = [] := by
  obtain ⟨w, w', -, -, hnil⟩ := h
  have hfront := (List.append_eq_nil_iff.mp hnil.symm).1
  exact (List.append_eq_nil_iff.mp hfront).2

theorem paddedAll_rfl (ps : List Text) : List.Forall₂ Padded ps ps :=
  List.forall₂_same.mpr fun _ _ => padded_rfl

theorem paddedAll_trans (h : List.Forall₂ Padded ps ps') (h' : List.Forall₂ Padded ps' qs) :
    List.Forall₂ Padded ps qs := by
  induction h generalizing qs with
  | nil => exact h'
  | cons hp _ ih =>
      cases h' with
      | cons hp' hps' => exact .cons (hp.trans hp') (ih hps')

/-! ## §2. White space at the ends of a text. -/

/-- White space at the beginning of a text is the beginning of its first piece. -/
theorem piecesFrom_blank_append (hm : m.outside = true) (hw : Text.blank w = true) (s : Text) :
    piecesFrom m d (w ++ s) = (piecesFrom (m.over w) d s).modifyHead (w ++ ·) := by
  induction w generalizing m with
  | nil =>
      obtain ⟨p, ps, hps⟩ := List.exists_cons_of_ne_nil (piecesFrom_ne_nil m d s)
      rw [List.nil_append, Mark.over_nil, hps]
      rfl
  | cons c w ih =>
      obtain ⟨hc, hw⟩ := Text.blank_cons_iff.mp hw
      have hcomma : ¬ (m.outside = true ∧ c = ',' ∧ d = 0) := fun h =>
        ne_of_isBlank hc (by decide) h.2.1
      rw [List.cons_append, piecesFrom_cons hcomma, depthAfter_blank m d hc,
        ih (Mark.rested_blank hm hc).outside hw, List.modifyHead_modifyHead]
      rfl

theorem pieces_blank_append (hw : Text.blank w = true) (s : Text) :
    pieces (w ++ s) = (pieces s).modifyHead (w ++ ·) := by
  have hrest : (Mark.initial.over w).Rested := Mark.rested_initial.over_blank hw
  rw [pieces, piecesFrom_blank_append rfl hw, hrest.piecesFrom_eq]
  rfl

/-- A text without commas behind another one is the end of its last piece. -/
theorem piecesFrom_append_of_not_mem (hw : ',' ∉ w) (m : Mark) (d : Nat) (s : Text) :
    ∃ ps p, piecesFrom m d s = ps ++ [p] ∧ piecesFrom m d (s ++ w) = ps ++ [p ++ w] := by
  induction s generalizing m d with
  | nil =>
      refine ⟨[], [], rfl, ?_⟩
      induction w generalizing m d with
      | nil => rfl
      | cons c w ih =>
          obtain ⟨hc, hw⟩ := List.ne_and_not_mem_of_not_mem_cons hw
          have hcomma : ¬ (m.outside = true ∧ c = ',' ∧ d = 0) := fun h => hc h.2.1.symm
          rw [List.nil_append, piecesFrom_cons hcomma, ← List.nil_append w, ih hw]
          rfl
  | cons c s ih =>
      by_cases hc : m.outside = true ∧ c = ',' ∧ d = 0
      · obtain ⟨hout, rfl, rfl⟩ := hc
        obtain ⟨ps, p, hs, hsw⟩ := ih (m.step ',') 0
        exact ⟨[] :: ps, p, by rw [piecesFrom_comma hout, hs]; rfl,
          by rw [List.cons_append, piecesFrom_comma hout, hsw]; rfl⟩
      · obtain ⟨ps, p, hs, hsw⟩ := ih (m.step c) (depthAfter m d c)
        rw [List.cons_append, piecesFrom_cons hc, piecesFrom_cons hc, hs, hsw]
        cases ps with
        | nil => exact ⟨[], c :: p, rfl, rfl⟩
        | cons q ps => exact ⟨(c :: q) :: ps, p, rfl, rfl⟩

theorem comma_not_mem_of_blank (hw : Text.blank w = true) : ',' ∉ w := by
  intro hmem
  exact absurd (List.all_eq_true.mp hw ',' hmem) (by decide)

/-! ## §3. White space beside a cut. -/

/-- A place of a text at one of its ends, or beside a comma at which it is cut. -/
inductive Beside : (front back : Text) → Prop
  | start (back : Text) : Beside [] back
  | finish (front : Text) : Beside front []
  /-- Directly behind the comma. -/
  | behind {front : Text} (back : Text) (h : AtCut front) : Beside (front ++ [',']) back
  /-- Directly before the comma. -/
  | before {front : Text} (back : Text) (h : AtCut front) : Beside front (',' :: back)

theorem padded_modifyHead (hw : Text.blank w = true) (ps : List Text) :
    List.Forall₂ Padded ps (ps.modifyHead (w ++ ·)) := by
  cases ps with
  | nil => exact .nil
  | cons p ps => exact .cons (padded_before hw p) (paddedAll_rfl ps)

theorem padded_start (hw : Text.blank w = true) (s : Text) :
    List.Forall₂ Padded (pieces s) (pieces (w ++ s)) := by
  rw [pieces_blank_append hw]
  exact padded_modifyHead hw (pieces s)

theorem padded_finish (hw : Text.blank w = true) (s : Text) :
    List.Forall₂ Padded (pieces s) (pieces (s ++ w)) := by
  obtain ⟨ps, p, hs, hsw⟩ :=
    piecesFrom_append_of_not_mem (comma_not_mem_of_blank hw) .initial 0 s
  rw [pieces, pieces, hs, hsw]
  exact List.rel_append (paddedAll_rfl ps) (.cons (padded_behind hw p) .nil)

theorem AtCut.append_blank (h : AtCut front) (hw : Text.blank w = true) : AtCut (front ++ w) := by
  refine ⟨?_, ?_⟩
  · rw [Mark.over_append]
    exact outside_over_blank h.outside hw
  · rw [depthFrom_append, depthFrom_blank _ _ hw]
    exact h.level

/-- **White space at such a place is put around the pieces.** -/
theorem padded_pieces (h : Beside front back) (hw : Text.blank w = true) :
    List.Forall₂ Padded (pieces (front ++ back)) (pieces (front ++ w ++ back)) := by
  cases h with
  | start => exact padded_start hw back
  | finish =>
      rw [List.append_nil, List.append_nil]
      exact padded_finish hw front
  | behind _ hcut =>
      rw [List.append_assoc, List.append_assoc, List.append_assoc, List.singleton_append,
        List.singleton_append, pieces_append hcut, pieces_append hcut]
      exact List.rel_append (paddedAll_rfl _) (padded_start hw back)
  | before _ hcut =>
      rw [pieces_append hcut, pieces_append (hcut.append_blank hw)]
      exact List.rel_append (padded_finish hw front) (paddedAll_rfl _)

/-- The second text is the first one with white space put in at such places, one after the other. -/
inductive Spaced (s : Text) : Text → Prop
  | same : Spaced s s
  | insert (front w back : Text) (h : Spaced s (front ++ back)) (hplace : Beside front back)
      (hw : Text.blank w = true) : Spaced s (front ++ w ++ back)

/-- **Its pieces are those of the first text with white space around them.** -/
theorem Spaced.pieces (h : Spaced s s') :
    List.Forall₂ Padded (Transform.pieces s) (Transform.pieces s') := by
  induction h with
  | same => exact paddedAll_rfl _
  | insert _ _ _ _ hplace hw ih => exact paddedAll_trans ih (padded_pieces hplace hw)

/-! ## §4. Arguments. -/

/-- With white space around the pieces the arguments are the same, and one more when an empty last
piece has become a blank one. -/
theorem arguments_padded (h : List.Forall₂ Padded ps ps') :
    (dropEmptyLast ps').map Text.trim
      = (dropEmptyLast ps).map Text.trim
        ++ if ps.getLast? = some [] ∧ ps'.getLast? ≠ some [] then [[]] else [] := by
  induction h with
  | nil => rfl
  | @cons p p' ps ps' hp hps ih =>
      cases hps with
      | nil =>
          have hone : ∀ q : Text, dropEmptyLast [q] = if q = [] then [] else [q] :=
            dropEmptyLast_concat []
          rw [hone, hone]
          -- the last piece: it is an argument when something stands in it, be it white space
          by_cases hnil' : p' = []
          · subst hnil'
            obtain rfl := hp.eq_nil
            rfl
          · by_cases hnil : p = []
            · subst hnil
              have htrim : Text.trim p' = [] := hp.trim_eq
              simp [hnil', htrim]
            · simp [hnil, hnil', hp.trim_eq]
      | cons _ _ =>
          rw [dropEmptyLast_cons _ (List.cons_ne_nil _ _),
            dropEmptyLast_cons _ (List.cons_ne_nil _ _), List.map_cons, List.map_cons, ih,
            hp.trim_eq, List.getLast?_cons_cons, List.getLast?_cons_cons, List.cons_append]

/-- **WHITE SPACE AROUND ARGUMENTS.**  A text with white space put in at its ends and beside the
commas at which it is cut has the same arguments exactly when nothing is put behind the last of these
commas, or something stands there already (or, with no such comma, in all of the text).  Otherwise it
has one more, which is empty. -/
theorem splitArguments_spaced (h : Spaced s s') :
    (splitArguments s' = splitArguments s ↔ (EndsAtCut s → EndsAtCut s'))
      ∧ (EndsAtCut s → ¬ EndsAtCut s' → splitArguments s' = splitArguments s ++ [[]]) := by
  have hsplit := arguments_padded h.pieces
  rw [← splitArguments_eq, ← splitArguments_eq] at hsplit
  rw [← getLast?_pieces (s := s), ← getLast?_pieces (s := s')]
  constructor
  · by_cases hmore : (pieces s).getLast? = some [] ∧ (pieces s').getLast? ≠ some []
    · rw [hsplit, if_pos hmore]
      simp [hmore.1, hmore.2]
    · rw [hsplit, if_neg hmore, List.append_nil]
      exact iff_of_true rfl fun hs => not_not.mp fun hs' => hmore ⟨hs, hs'⟩
  · intro hs hs'
    rw [hsplit, if_pos ⟨hs, hs'⟩]

/-- A space behind the last comma brings an empty argument; spaces beside a comma with something
behind it bring none. -/
theorem splitArguments_spaced_comma :
    Spaced "a,".toList "a, ".toList ∧ EndsAtCut "a,".toList ∧ ¬ EndsAtCut "a, ".toList
      ∧ splitArguments "a, ".toList = splitArguments "a,".toList ++ [[]]
      ∧ Spaced "a,'b'".toList "a , 'b'".toList ∧ ¬ EndsAtCut "a,'b'".toList
      ∧ splitArguments "a , 'b'".toList = splitArguments "a,'b'".toList := by
  have hcut : AtCut "a".toList := ⟨by decide, by decide⟩
  have hspaced : Spaced "a,".toList "a, ".toList :=
    .insert "a,".toList " ".toList [] .same (.finish _) (by decide)
  have hends : EndsAtCut "a,".toList := .inr ⟨"a".toList, hcut, rfl⟩
  have hends' : ¬ EndsAtCut "a, ".toList := by
    rw [← getLast?_pieces]
    decide
  have hbehind : Spaced "a,'b'".toList "a, 'b'".toList :=
    .insert "a,".toList " ".toList "'b'".toList .same (.behind _ hcut) (by decide)
  have hbeside : Spaced "a,'b'".toList "a , 'b'".toList :=
    .insert "a".toList " ".toList ", 'b'".toList hbehind (.before _ hcut) (by decide)
  have hopen : ¬ EndsAtCut "a,'b'".toList := by
    rw [← getLast?_pieces]
    decide
  exact ⟨hspaced, hends, hends', (splitArguments_spaced hspaced).2 hends hends', hbeside, hopen,
    (splitArguments_spaced hbeside).1.mpr fun hs => absurd hs hopen⟩

end Crosswalk.Transform
