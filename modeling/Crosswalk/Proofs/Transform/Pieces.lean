/-
  Crosswalk.Proofs.Transform.Pieces
  ──────────────────────────────────────
  **THE PIECES OF A TEXT BETWEEN ITS COMMAS.**

  A comma is one at which a text is cut when the text before it leaves no
  quote and no parenthesis open.  What stands before such a comma and what
  stands behind it are cut independently of each other:

    • `pieces_append`: the pieces before a cut, and those behind it,
    • `intercalate_pieces`: nothing is lost,
    • `atCut_iff`: the commas between the pieces are those at which the text
      is cut, and no others,
    • `pieces_intercalate`: texts without cuts are found again,
    • `getLast?_pieces`: the texts with nothing behind their last cut.
-/
import Crosswalk.Proofs.Transform.Nesting

namespace Crosswalk.Transform

variable {m : Mark} {d : Nat} {c : Char} {s w front back : Text} {ps qs : List Text}

/-! ## §1. One character. -/

theorem piecesFrom_comma (hm : m.outside = true) (s : Text) :
    piecesFrom m 0 (',' :: s) = [] :: piecesFrom (m.step ',') 0 s := by
  rw [piecesFrom, if_pos (by simp [hm])]

theorem piecesFrom_ne_nil (m : Mark) (d : Nat) : ∀ s : Text, piecesFrom m d s ≠ []
  | [] => List.cons_ne_nil _ _
  | c :: s => by
      rw [piecesFrom]
      split
      · exact List.cons_ne_nil _ _
      · split <;> exact List.cons_ne_nil _ _

/-- A character at which nothing is cut goes to the first piece. -/
theorem piecesFrom_cons (hc : ¬ (m.outside = true ∧ c = ',' ∧ d = 0)) (s : Text) :
    piecesFrom m d (c :: s)
      = (piecesFrom (m.step c) (depthAfter m d c) s).modifyHead (c :: ·) := by
  rw [piecesFrom, if_neg (by simpa [and_assoc] using hc)]
  cases hrest : piecesFrom (m.step c) (depthAfter m d c) s with
  | nil => exact absurd hrest (piecesFrom_ne_nil _ _ s)
  | cons p ps => rfl

/-- Behind a mark at rest a text is cut as from the beginning. -/
theorem Mark.Rested.piecesFrom_eq (h : m.Rested) (d : Nat) (s : Text) :
    piecesFrom m d s = piecesFrom .initial d s := by
  cases s with
  | nil => rfl
  | cons c s =>
      have hout : m.outside = Mark.initial.outside := h.outside
      rw [piecesFrom, piecesFrom, h.step_eq, depthAfter, depthAfter, hout]

/-! ## §2. Cuts. -/

/-- A comma behind the text is one at which the whole is cut. -/
structure CutFrom (m : Mark) (d : Nat) (front : Text) : Prop where
  outside : (m.over front).outside = true
  level : depthFrom m d front = 0

/-- The same from the beginning. -/
def AtCut (front : Text) : Prop :=
  CutFrom .initial 0 front

theorem CutFrom.tail (h : CutFrom m d (c :: s)) : CutFrom (m.step c) (depthAfter m d c) s :=
  ⟨h.outside, h.level⟩

theorem CutFrom.cons (c : Char) (h : CutFrom (m.step c) (depthAfter m d c) s) :
    CutFrom m d (c :: s) :=
  ⟨h.outside, h.level⟩

/-- The pieces of a text. -/
def pieces (s : Text) : List Text :=
  piecesFrom .initial 0 s

theorem splitArguments_eq (s : Text) :
    splitArguments s = (dropEmptyLast (pieces s)).map Text.trim := rfl

theorem pieces_ne_nil (s : Text) : pieces s ≠ [] :=
  piecesFrom_ne_nil .initial 0 s

theorem modifyHead_append (f : Text → Text) (hps : ps ≠ []) (qs : List Text) :
    (ps ++ qs).modifyHead f = ps.modifyHead f ++ qs := by
  cases ps with
  | nil => exact absurd rfl hps
  | cons p ps => rfl

theorem piecesFrom_append (h : CutFrom m d front) (back : Text) :
    piecesFrom m d (front ++ ',' :: back) = piecesFrom m d front ++ pieces back := by
  induction front generalizing m d with
  | nil =>
      have hout : m.outside = true := h.outside
      obtain rfl : d = 0 := h.level
      rw [List.nil_append, piecesFrom_comma hout, (Mark.rested_comma hout).piecesFrom_eq]
      rfl
  | cons c front ih =>
      by_cases hc : m.outside = true ∧ c = ',' ∧ d = 0
      · obtain ⟨hout, rfl, rfl⟩ := hc
        have hlevel : depthAfter m 0 ',' = 0 := by simp [depthAfter]
        have htail := h.tail
        rw [hlevel] at htail
        rw [List.cons_append, piecesFrom_comma hout, piecesFrom_comma hout, ih htail,
          List.cons_append]
      · rw [List.cons_append, piecesFrom_cons hc, piecesFrom_cons hc, ih h.tail,
          modifyHead_append _ (piecesFrom_ne_nil _ _ front)]

/-- **What stands before a cut and what stands behind it are cut on their own.** -/
theorem pieces_append (h : AtCut front) (back : Text) :
    pieces (front ++ ',' :: back) = pieces front ++ pieces back :=
  piecesFrom_append h back

/-! ## §3. Joining. -/

theorem intercalate_modifyHead (c : Char) (hps : ps ≠ []) :
    [','].intercalate (ps.modifyHead (c :: ·)) = c :: [','].intercalate ps := by
  match ps, hps with
  | [p], _ => simp
  | p :: q :: ps, _ => simp [List.intercalate_cons_cons]

theorem intercalate_append (hps : ps ≠ []) (hqs : qs ≠ []) :
    [','].intercalate (ps ++ qs) = [','].intercalate ps ++ ',' :: [','].intercalate qs := by
  induction ps with
  | nil => exact absurd rfl hps
  | cons p ps ih =>
      by_cases hnil : ps = []
      · subst hnil
        rw [List.singleton_append, List.intercalate_cons_of_ne_nil hqs]
        simp
      · rw [List.cons_append, List.intercalate_cons_of_ne_nil (by simp [hnil]), ih hnil,
          List.intercalate_cons_of_ne_nil hnil]
        simp

theorem intercalate_piecesFrom (m : Mark) (d : Nat) (s : Text) :
    [','].intercalate (piecesFrom m d s) = s := by
  induction s generalizing m d with
  | nil => rfl
  | cons c s ih =>
      by_cases hc : m.outside = true ∧ c = ',' ∧ d = 0
      · obtain ⟨hout, rfl, rfl⟩ := hc
        rw [piecesFrom_comma hout, List.intercalate_cons_of_ne_nil (piecesFrom_ne_nil _ _ s), ih]
        rfl
      · rw [piecesFrom_cons hc, intercalate_modifyHead c (piecesFrom_ne_nil _ _ s), ih]

/-- **Nothing is lost.** -/
theorem intercalate_pieces (s : Text) : [','].intercalate (pieces s) = s :=
  intercalate_piecesFrom .initial 0 s

/-- A text with one piece only is that piece. -/
theorem pieces_eq_of_length (h : (pieces s).length = 1) : pieces s = [s] := by
  obtain ⟨p, hp⟩ := List.length_eq_one_iff.mp h
  have hjoin := intercalate_pieces s
  rw [hp, List.intercalate_singleton] at hjoin
  rw [hp, hjoin]

/-! ## §4. Where a text is cut. -/

/-- Between two pieces a text is cut. -/
theorem cutFrom_intercalate (hs : piecesFrom m d s = ps ++ qs) (hps : ps ≠ []) (hqs : qs ≠ []) :
    CutFrom m d ([','].intercalate ps) := by
  induction s generalizing m d ps with
  | nil =>
      have hlength : 1 = ps.length + qs.length := by
        rw [← List.length_append, ← hs]
        rfl
      have hp := List.length_pos_iff.mpr hps
      have hq := List.length_pos_iff.mpr hqs
      omega
  | cons c s ih =>
      obtain ⟨p, ps, rfl⟩ := List.exists_cons_of_ne_nil hps
      by_cases hc : m.outside = true ∧ c = ',' ∧ d = 0
      · obtain ⟨hout, rfl, rfl⟩ := hc
        rw [piecesFrom_comma hout, List.cons_append] at hs
        obtain ⟨rfl, hrest⟩ := List.cons.inj hs
        -- the cut is this comma, or one further on
        by_cases hnil : ps = []
        · subst hnil
          exact ⟨hout, rfl⟩
        · rw [List.intercalate_cons_of_ne_nil hnil]
          have hlevel : depthAfter m 0 ',' = 0 := by simp [depthAfter]
          refine CutFrom.cons ',' ?_
          rw [hlevel]
          exact ih hrest hnil
      · rw [piecesFrom_cons hc] at hs
        obtain ⟨q, rest, hrest⟩ :=
          List.exists_cons_of_ne_nil (piecesFrom_ne_nil (m.step c) (depthAfter m d c) s)
        rw [hrest, List.modifyHead_cons, List.cons_append] at hs
        obtain ⟨rfl, htail⟩ := List.cons.inj hs
        rw [htail, ← List.cons_append] at hrest
        have hcut := ih hrest (List.cons_ne_nil q ps)
        have hjoin := intercalate_modifyHead c (List.cons_ne_nil q ps)
        rw [List.modifyHead_cons] at hjoin
        rw [hjoin]
        exact hcut.cons c

/-- **The commas between the pieces are those at which the text is cut.** -/
theorem atCut_iff (hs : s = front ++ ',' :: back) :
    AtCut front
      ↔ ∃ k, 0 < k ∧ k < (pieces s).length ∧ front = [','].intercalate ((pieces s).take k) := by
  subst hs
  constructor
  · intro hcut
    refine ⟨(pieces front).length, List.length_pos_iff.mpr (pieces_ne_nil front), ?_, ?_⟩
    · have hback := List.length_pos_iff.mpr (pieces_ne_nil back)
      rw [pieces_append hcut, List.length_append]
      omega
    · rw [pieces_append hcut, List.take_left, intercalate_pieces]
  · rintro ⟨k, hpos, hlt, hfront⟩
    have htake : (pieces (front ++ ',' :: back)).take k ≠ [] :=
      List.ne_nil_of_length_pos (by rw [List.length_take]; omega)
    have hdrop : (pieces (front ++ ',' :: back)).drop k ≠ [] :=
      List.ne_nil_of_length_pos (by rw [List.length_drop]; omega)
    rw [hfront]
    exact cutFrom_intercalate (List.take_append_drop k _).symm htake hdrop

/-- A text with no comma at which it is cut is its only piece. -/
theorem pieces_eq_singleton_iff :
    pieces s = [s] ↔ ∀ front back, s = front ++ ',' :: back → ¬ AtCut front := by
  constructor
  · intro hs front back hfront hcut
    obtain ⟨k, hpos, hlt, -⟩ := (atCut_iff hfront).mp hcut
    rw [hs, List.length_singleton] at hlt
    omega
  · intro hnone
    obtain ⟨p, ps, hps⟩ := List.exists_cons_of_ne_nil (pieces_ne_nil s)
    have hjoin := intercalate_pieces s
    rw [hps] at hjoin
    by_cases hnil : ps = []
    · subst hnil
      exact pieces_eq_of_length (by rw [hps, List.length_singleton])
    · rw [List.intercalate_cons_of_ne_nil hnil] at hjoin
      have hcut : AtCut p := by
        have h : AtCut ([','].intercalate [p]) :=
          cutFrom_intercalate hps (List.cons_ne_nil _ _) hnil
        rwa [List.intercalate_singleton] at h
      have hs : s = p ++ ',' :: [','].intercalate ps := by
        rw [← hjoin]
        simp
      exact absurd hcut (hnone p _ hs)

/-- **What holds of texts that are not cut, and of two texts with a cut between them when it holds
of both, holds of all texts.** -/
theorem pieces_induction {P : Text → Prop} (whole : ∀ s, pieces s = [s] → P s)
    (cut : ∀ front back, AtCut front → P front → P back → P (front ++ ',' :: back)) (s : Text) :
    P s := by
  induction hn : s.length using Nat.strongRecOn generalizing s with
  | ind n ih =>
      by_cases hs : ∃ front back, s = front ++ ',' :: back ∧ AtCut front
      · obtain ⟨front, back, rfl, hcut⟩ := hs
        rw [List.length_append, List.length_cons] at hn
        exact cut front back hcut (ih front.length (by omega) front rfl)
          (ih back.length (by omega) back rfl)
      · exact whole s <| pieces_eq_singleton_iff.mpr fun front back hfront hcut =>
          hs ⟨front, back, hfront, hcut⟩

/-- **Texts that are not cut are the pieces of what they make**, when each of them leaves nothing
open. -/
theorem pieces_intercalate (hps : ps ≠ []) (hwhole : ∀ p ∈ ps, pieces p = [p])
    (hcut : ∀ p ∈ ps, AtCut p) : pieces ([','].intercalate ps) = ps := by
  induction ps with
  | nil => exact absurd rfl hps
  | cons p ps ih =>
      by_cases hnil : ps = []
      · subst hnil
        rw [List.intercalate_singleton]
        exact hwhole p List.mem_cons_self
      · have hrest := ih hnil (fun q hq => hwhole q (List.mem_cons_of_mem p hq))
          fun q hq => hcut q (List.mem_cons_of_mem p hq)
        rw [List.intercalate_cons_of_ne_nil hnil, List.append_assoc, List.singleton_append,
          pieces_append (hcut p List.mem_cons_self), hwhole p List.mem_cons_self, hrest]
        rfl

/-! ## §5. The last piece. -/

/-- Nothing stands behind the last comma at which the text is cut, or in all of it. -/
def EndsAtCut (s : Text) : Prop :=
  s = [] ∨ ∃ front, AtCut front ∧ s = front ++ [',']

/-- **The last piece is empty where nothing stands behind the last cut.** -/
theorem getLast?_pieces : (pieces s).getLast? = some [] ↔ EndsAtCut s := by
  constructor
  · intro hlast
    obtain ⟨ps, hps⟩ := List.getLast?_eq_some_iff.mp hlast
    have hjoin := intercalate_pieces s
    rw [hps] at hjoin
    by_cases hnil : ps = []
    · subst hnil
      exact .inl hjoin.symm
    · rw [intercalate_append hnil (List.cons_ne_nil _ _)] at hjoin
      exact .inr ⟨_, cutFrom_intercalate hps hnil (List.cons_ne_nil _ _), hjoin.symm⟩
  · rintro (rfl | ⟨front, hcut, rfl⟩)
    · rfl
    · rw [pieces_append hcut]
      exact List.getLast?_concat

theorem dropEmptyLast_cons (p : Text) (hps : ps ≠ []) :
    dropEmptyLast (p :: ps) = p :: dropEmptyLast ps := by
  rw [dropEmptyLast]
  exact fun _ => hps

theorem dropEmptyLast_concat (ps : List Text) (p : Text) :
    dropEmptyLast (ps ++ [p]) = if p = [] then ps else ps ++ [p] := by
  induction ps with
  | nil => cases p <;> rfl
  | cons q ps ih =>
      rw [List.cons_append, dropEmptyLast_cons q (by simp), ih]
      split <;> rfl

theorem dropEmptyLast_eq (ps : List Text) :
    dropEmptyLast ps = if ps.getLast? = some [] then ps.dropLast else ps := by
  rcases List.eq_nil_or_concat ps with rfl | ⟨ps, p, rfl⟩
  · rfl
  · rw [List.concat_eq_append, dropEmptyLast_concat, List.getLast?_concat, List.dropLast_concat]
    simp only [Option.some.injEq]

end Crosswalk.Transform
