/-
  Crosswalk.Proofs.Yaml.Literal
  ──────────────────────────────────────
  **LITERAL SCALARS ARE READ BACK.**

  The lines of a literal scalar begin at a column that the reader finds at
  the first of them, or that the header says.  What becomes of the breaks at
  the end is what the header says too.

    • `readHeader_literalHints`: the header,
    • `readLines_literalLines`: the lines, up to what is indented less,
    • `readBlock_literal`: the whole scalar.
-/
import Crosswalk.Proofs.Yaml.PlainText
import Crosswalk.Yaml.BlockScalar

namespace Crosswalk.Yaml

variable {c : Char} {s p rest : Text} {b : BlockLines} {m start : Mark} {n least : Nat}
  {chomping : Chomping}

/-! ## §1. Headers. -/

/-- What becomes of the breaks at the end of a text. -/
def chompingFor (s : Text) : Chomping :=
  match s.reverse with
  | [] => .strip
  | [c] => if isBreak c then .keep else .strip
  | c :: d :: _ => if !isBreak c then .strip else if isBreak d then .keep else .clip

/-- The sign of a header. -/
def Chomping.sign : Chomping → Text
  | .strip => ['-']
  | .clip => []
  | .keep => ['+']

/-- The indentation of a text cannot be seen. -/
def hidesIndentation (s : Text) : Bool :=
  s.head?.any (fun c => isSpace c || isBreak c)

theorem literalHints_eq (s : Text) :
    literalHints s = (if hidesIndentation s then ['2'] else []) ++ (chompingFor s).sign := by
  unfold literalHints chompingFor hidesIndentation
  cases s.reverse with
  | nil => rfl
  | cons c more =>
      cases more with
      | nil => cases hc : isBreak c <;> simp [hc, Chomping.sign]
      | cons d more =>
          cases hc : isBreak c <;> cases hd : isBreak d <;> simp [hc, hd, Chomping.sign]

/-- The header that is written says what it should, wherever the lines begin. -/
theorem readHeader_literalHints (s rest : Text) :
    readHeader (literalHints s ++ '\n' :: rest)
      = .ok (⟨chompingFor s, if hidesIndentation s then 2 else 0⟩, (literalHints s).length) := by
  rw [literalHints_eq]
  cases hidesIndentation s with
  | true =>
      cases chompingFor s with
      | strip => rfl
      | clip => rfl
      | keep => rfl
  | false =>
      cases chompingFor s with
      | strip => rfl
      | clip =>
          cases rest with
          | nil => rfl
          | cons c rest =>
              show readHeader ('\n' :: c :: rest) = _
              unfold readHeader
              cases hc : chompingOf? c with
              | none => simp only [hc]; rfl
              | some ch => simp only [hc]; rfl
      | keep => rfl

theorem afterComment_newline (m : Mark) (s : Text) : afterComment m ('\n' :: s) = (m, '\n' :: s) := by
  show (m.forward (s.length + 1 - (s.length + 1)), '\n' :: s) = _
  rw [Nat.sub_self]
  rfl

/-! ## §2. Lines. -/

/-- The lines read so far are those of `p`, and the reader is at the beginning of a line. -/
structure BlockLines.Starts (b : BlockLines) (n : Nat) (p : Text) : Prop where
  literal : b.folded = false
  indent : b.indent = some n
  text : b.value ++ b.lastBreak ++ b.breaks = p
  ended : ∀ d ∈ p.getLast?, isBreak d = true
  /-- A break behind a word is the last break of the lines. -/
  single : ∀ q d c, p = q ++ [d, c] → isBreak d = false → b.breaks = []

/-- The lines read so far are those of `p`, and the reader is within a line. -/
structure BlockLines.Within (b : BlockLines) (n : Nat) (p : Text) : Prop where
  literal : b.folded = false
  indent : b.indent = some n
  text : b.value = p
  lastBreak : b.lastBreak = []
  breaks : b.breaks = []
  goesOn : ∃ q d, p = q ++ [d] ∧ isBreak d = false

namespace BlockLines

/-- A further break. -/
theorem Starts.addBreak (h : b.Starts n p) (hc : isBreak c = true) (deepest : Nat) :
    ({ b with deepest := deepest, breaks := b.breaks ++ [c] } : BlockLines).Starts n (p ++ [c]) where
  literal := h.literal
  indent := h.indent
  text := by
    show b.value ++ b.lastBreak ++ (b.breaks ++ [c]) = _
    rw [← List.append_assoc, h.text]
  ended := by
    intro d hd
    rw [List.getLast?_concat] at hd
    obtain rfl := Option.some.inj hd
    exact hc
  single := by
    -- the break before it was one, too
    intro q d c' heq hd
    have hp : p = q ++ [d] := by
      have hdrop := congrArg List.dropLast heq
      rw [List.dropLast_concat] at hdrop
      rw [hdrop, List.append_cons, List.dropLast_concat]
    have hbreak := h.ended d (by rw [hp, List.getLast?_concat]; rfl)
    rw [hd] at hbreak
    cases hbreak

/-- The first character of a line. -/
theorem Starts.startLine (h : b.Starts n p) (hc : isBreak c = false) (deepest : Nat) :
    (let b' := ({ b with deepest := deepest, indent := some n } : BlockLines).startLine c
     { b' with value := b'.value ++ [c] } : BlockLines).Within n (p ++ [c]) where
  literal := h.literal
  indent := rfl
  text := by
    have hliteral : ¬(b.folded = true ∧ b.lastBreak = ['\n'] ∧ (!b.blankLine) = true
        ∧ (!isBlank c) = true) := by
      rw [h.literal]
      rintro ⟨hno, -⟩
      cases hno
    show b.value ++ (if _ then _ else _) ++ b.breaks ++ [c] = _
    rw [if_neg hliteral, h.text]
  lastBreak := rfl
  breaks := rfl
  goesOn := ⟨p, c, rfl, hc⟩

/-- The end of a line. -/
theorem Within.endLine (h : b.Within n p) (hc : isBreak c = true) :
    ({ b with lastBreak := [c] } : BlockLines).Starts n (p ++ [c]) where
  literal := h.literal
  indent := h.indent
  text := by
    show b.value ++ [c] ++ b.breaks = _
    rw [h.breaks, h.text, List.append_nil]
  ended := by
    intro d hd
    rw [List.getLast?_concat] at hd
    obtain rfl := Option.some.inj hd
    exact hc
  single := fun _ _ _ _ _ => h.breaks

/-- A further character of a line. -/
theorem Within.addChar (h : b.Within n p) (hc : isBreak c = false) :
    ({ b with value := b.value ++ [c] } : BlockLines).Within n (p ++ [c]) where
  literal := h.literal
  indent := h.indent
  text := by rw [h.text]
  lastBreak := h.lastBreak
  breaks := h.breaks
  goesOn := ⟨p, c, rfl, hc⟩

/-- The break that is written behind the last line does not count. -/
theorem Within.finish_eq (h : b.Within n s) :
    ({ b with lastBreak := [c] } : BlockLines).finish (chompingFor s) = s := by
  obtain ⟨q, d, hs, hd⟩ := h.goesOn
  have hstrip : chompingFor s = .strip := by
    unfold chompingFor
    rw [hs, List.reverse_append, List.reverse_singleton, List.singleton_append]
    cases q.reverse with
    | nil =>
        show (if isBreak d = true then Chomping.keep else .strip) = .strip
        rw [if_neg (by rw [hd]; exact Bool.false_ne_true)]
    | cons e more =>
        show (if (!isBreak d) = true then Chomping.strip else _) = .strip
        rw [hd]
        rfl
  rw [hstrip]
  exact h.text

/-- What becomes of the breaks at the end leaves the text as it was. -/
theorem Starts.finish_eq (h : b.Starts n s) : b.finish (chompingFor s) = s := by
  unfold chompingFor
  split
  · rename_i hnil
    have htext := h.text
    rw [List.reverse_eq_nil_iff.mp hnil] at htext ⊢
    show b.value = []
    simp only [List.append_eq_nil_iff] at htext
    exact htext.1.1
  · rename_i c hone
    rw [List.reverse_eq_iff] at hone
    have hbreak : isBreak c = true := h.ended c (by rw [hone]; rfl)
    rw [if_pos hbreak]
    exact h.text
  · rename_i c d more htwo
    have hs : s = more.reverse ++ [d, c] := by
      rw [List.reverse_eq_iff] at htwo
      rw [htwo]
      simp
    have hbreak : isBreak c = true := h.ended c (by rw [hs]; simp)
    rw [hbreak]
    cases hd : isBreak d with
    | true => exact h.text
    | false =>
        have htext := h.text
        rw [h.single _ d c hs hd, List.append_nil] at htext
        exact htext

end BlockLines

/-- The indentation of a line is passed over, as far as the column of the lines. -/
theorem readLines_indentation (rest : Text) : ∀ {k : Nat} {m : Mark},
    (∀ j < k, b.indent.all (m.column + j < ·) = true) →
      readLines start least chomping false b m (indentation k ++ rest)
        = readLines start least chomping false b (m.forward k) rest
  | 0, _, _ => rfl
  | k + 1, m, hwithin => by
      have hfirst : b.indent.all (m.column < ·) = true := hwithin 0 (Nat.succ_pos k)
      have hrest : ∀ j < k, b.indent.all (m.next.column + j < ·) = true := by
        intro j hj
        have hnext := hwithin (j + 1) (Nat.succ_lt_succ hj)
        rw [← Nat.add_assoc, Nat.add_right_comm] at hnext
        exact hnext
      rw [indentation_succ, List.cons_append, readLines]
      simp only [hfirst, Bool.true_and, decide_true, if_true]
      rw [readLines_indentation rest hrest, Mark.next_forward]

/-- A break at the beginning of a line. -/
theorem readLines_break (hc : isBreak c = true) (rest : Text) :
    readLines start least chomping false b m (c :: rest)
      = readLines start least chomping false
          { b with deepest := max b.deepest m.column, breaks := b.breaks ++ [c] } m.newLine rest := by
  have hblank := isBlank_eq_false.mp (not_isBlank_of_isBreak hc)
  rw [readLines]
  simp only [hc, decide_eq_false hblank.1, decide_eq_false hblank.2, Bool.and_false,
    Bool.false_eq_true, if_false, if_true]

/-- The column of the lines, once it is known. -/
theorem BlockLines.settle_eq (h : b.indent = some n) (deepest : Nat) :
    ({ b with deepest := deepest } : BlockLines).settle least = n := by
  unfold BlockLines.settle
  rw [h]
  rfl

/-- The first character of a line. -/
theorem readLines_first (hc : isBreak c = false)
    (hwithin : b.indent.all (m.column < ·) = false ∨ isBlank c = false)
    (hsettle : ({ b with deepest := max b.deepest m.column } : BlockLines).settle least = n)
    (hcolumn : m.column = n) (rest : Text) :
    readLines start least chomping false b m (c :: rest)
      = readLines start least chomping true
          (let b' := ({ b with deepest := max b.deepest m.column, indent := some n } :
            BlockLines).startLine c
          { b' with value := b'.value ++ [c] }) m.next rest := by
  have hskip : ∀ d : Char, isBlank d = true →
      (b.indent.all (m.column < ·) && decide (c = d)) = false := by
    intro d hd
    obtain hno | hblank := hwithin
    · rw [hno, Bool.false_and]
    · rw [decide_eq_false, Bool.and_false]
      rintro rfl
      rw [hd] at hblank
      cases hblank
  rw [readLines]
  simp only [hskip ' ' rfl, hskip '\t' rfl, hc, hsettle, if_pos hcolumn, Bool.false_eq_true, if_false]

/-- A line that is indented too little ends the scalar. -/
theorem readLines_stop {next : Text} (hnext : IsNext next) (hindent : b.indent = some n)
    (hcolumn : m.column < n) :
    readLines start least chomping false b m next = .ok ⟨b.finish chomping, m, next⟩ := by
  cases next with
  | nil => rw [readLines]
  | cons c rest =>
      obtain ⟨hbreak, hblank⟩ := hnext c rfl
      rw [isBlank_eq_false] at hblank
      rw [readLines]
      simp only [hbreak, decide_eq_false hblank.1, decide_eq_false hblank.2, Bool.and_false,
        BlockLines.settle_eq hindent, if_neg (Nat.ne_of_lt hcolumn), Bool.false_eq_true, if_false]
      unfold BlockLines.finish
      cases chomping with
      | strip => rfl
      | clip => rfl
      | keep => rfl

/-- Where the reader is among the lines. -/
inductive BlockLines.Holds (n : Nat) (p : Text) : (inLine : Bool) → BlockLines → Mark → Prop
  | starts {b : BlockLines} {m : Mark} (h : b.Starts n p) (hcolumn : m.column = 0) :
      Holds n p false b m
  | within {b : BlockLines} {m : Mark} (h : b.Within n p) : Holds n p true b m

/-- **The lines of a literal scalar are read back**, from any place within them, up to a line that
is indented less.  The induction is on the text that is left. -/
theorem readLines_literalLines (start : Mark) (least : Nat) {next : Text} {k : Nat}
    (hnext : IsNext next) (hk : k < n) :
    ∀ {r p : Text} {inLine : Bool} {b : BlockLines} {m : Mark}, BlockLines.Holds n p inLine b m →
      p ++ r = s →
      ∃ m' : Mark, m'.column = k ∧ m.line ≤ m'.line
        ∧ readLines start least (chompingFor s) inLine b m
            (literalLines n (!inLine) r ++ (indentation k ++ next)) = .ok ⟨s, m', next⟩
  | [], p, _, b, m, .starts h hcolumn, hs => by
      rw [List.append_nil] at hs
      subst hs
      have hwithin : ∀ j < k, b.indent.all (m.column + j < ·) = true := by
        intro j hj
        rw [h.indent, hcolumn]
        exact decide_eq_true (by omega)
      refine ⟨m.forward k, by show m.column + k = k; omega, Nat.le_refl _, ?_⟩
      show readLines _ _ _ false b m (indentation k ++ next) = _
      rw [readLines_indentation next hwithin,
        readLines_stop hnext h.indent (by show m.column + k < n; omega), h.finish_eq]
  | [], p, _, b, m, .within h, hs => by
      rw [List.append_nil] at hs
      subst hs
      have hindent : ({ b with lastBreak := ['\n'] } : BlockLines).indent = some n := h.indent
      have hwithin : ∀ j < k, ({ b with lastBreak := ['\n'] } : BlockLines).indent.all
          (m.newLine.column + j < ·) = true := by
        intro j hj
        show b.indent.all (0 + j < ·) = true
        rw [h.indent]
        exact decide_eq_true (by omega)
      refine ⟨m.newLine.forward k, Nat.zero_add k, Nat.le_succ _, ?_⟩
      show readLines _ _ _ true b m ('\n' :: (indentation k ++ next)) = _
      rw [readLines, if_pos isBreak_newline, readLines_indentation next hwithin,
        readLines_stop hnext hindent (by show 0 + k < n; omega), h.finish_eq]
  | c :: r, p, _, b, m, .starts h hcolumn, hs => by
      rw [List.append_cons] at hs
      show ∃ m' : Mark, _ ∧ _ ∧ readLines _ _ _ false b m (literalLines n true (c :: r) ++ _) = _
      rw [literalLines]
      cases hc : isBreak c with
      | true =>
          obtain ⟨m', hcolumn', hline, hread⟩ := readLines_literalLines start least hnext hk (r := r)
            (.starts (h.addBreak hc (max b.deepest m.column)) (m := m.newLine) rfl) hs
          refine ⟨m', hcolumn', Nat.le_trans (Nat.le_succ _) hline, ?_⟩
          show readLines _ _ _ false b m (c :: (literalLines n true r ++ _)) = _
          rw [readLines_break hc]
          exact hread
      | false =>
          have hwithin : ∀ j < n, b.indent.all (m.column + j < ·) = true := by
            intro j hj
            rw [h.indent, hcolumn]
            exact decide_eq_true (by omega)
          have hfull : b.indent.all ((m.forward n).column < ·) = false := by
            rw [h.indent]
            exact decide_eq_false (by show ¬m.column + n < n; omega)
          obtain ⟨m', hcolumn', hline, hread⟩ := readLines_literalLines start least hnext hk (r := r)
            (.within (h.startLine hc (max b.deepest (m.forward n).column))
              (m := (m.forward n).next)) hs
          refine ⟨m', hcolumn', hline, ?_⟩
          show readLines _ _ _ false b m
            (indentation n ++ c :: literalLines n false r ++ _) = _
          rw [List.append_assoc, readLines_indentation _ hwithin, List.cons_append,
            readLines_first hc (.inl hfull) (BlockLines.settle_eq h.indent _)
              (by show m.column + n = n; omega)]
          exact hread
  | c :: r, p, _, b, m, .within h, hs => by
      rw [List.append_cons] at hs
      show ∃ m' : Mark, _ ∧ _ ∧ readLines _ _ _ true b m (literalLines n false (c :: r) ++ _) = _
      rw [literalLines]
      cases hc : isBreak c with
      | true =>
          obtain ⟨m', hcolumn', hline, hread⟩ := readLines_literalLines start least hnext hk (r := r)
            (.starts (h.endLine hc) (m := m.newLine) rfl) hs
          refine ⟨m', hcolumn', Nat.le_trans (Nat.le_succ _) hline, ?_⟩
          show readLines _ _ _ true b m (c :: (literalLines n true r ++ _)) = _
          rw [readLines, if_pos hc]
          exact hread
      | false =>
          obtain ⟨m', hcolumn', hline, hread⟩ := readLines_literalLines start least hnext hk (r := r)
            (.within (h.addChar hc) (m := m.next)) hs
          refine ⟨m', hcolumn', hline, ?_⟩
          show readLines _ _ _ true b m (c :: (literalLines n false r ++ _)) = _
          rw [readLines, if_neg (by rw [hc]; exact Bool.false_ne_true)]
          exact hread

/-! ## §3. Whole scalars. -/

/-- The lines before the first one. -/
theorem BlockLines.starts_nil (n deepest : Nat) :
    (⟨false, some n, deepest, [], [], [], false⟩ : BlockLines).Starts n [] where
  literal := rfl
  indent := rfl
  text := rfl
  ended := fun d hd => by cases hd
  single := fun q d c h => by
    have hlength := congrArg List.length h
    rw [List.length_append] at hlength
    cases hlength

/-- What `allowsLiteral` makes sure of. -/
theorem allowsLiteral_spec (h : allowsLiteral s = true) : IsPrinted s := by
  unfold allowsLiteral needsEscapes at h
  simp only [Bool.not_eq_true', Bool.or_eq_false_iff, Bool.not_eq_false'] at h
  exact List.all_eq_true.mp h.1.1

/-- The first line says where the lines begin, when that can be seen. -/
theorem readLines_unsettled (start : Mark) {next : Text} {i k : Nat} (hs : s ≠ [])
    (hliteral : allowsLiteral s = true) (hhides : hidesIndentation s = false) (hnext : IsNext next)
    (hk : k ≤ i) (hcolumn : m.column = 0) :
    ∃ m' : Mark, m'.column = k ∧ m.line ≤ m'.line
      ∧ readLines start (i + 1) (chompingFor s) false ⟨false, none, 0, [], [], [], false⟩ m
          (literalLines (i + 2) true s ++ (indentation k ++ next)) = .ok ⟨s, m', next⟩ := by
  obtain ⟨c, r, rfl⟩ := List.exists_cons_of_ne_nil hs
  have hfirst : isSpace c = false ∧ isBreak c = false := by
    unfold hidesIndentation at hhides
    exact Bool.or_eq_false_iff.mp hhides
  have hblank : isBlank c = false := by
    cases hb : isBlank c with
    | false => rfl
    | true =>
        obtain rfl := eq_space_of_isBlank (allowsLiteral_spec hliteral c List.mem_cons_self) hb
        cases hfirst.1
  obtain ⟨m', hcolumn', hline, hread⟩ := readLines_literalLines start (i + 1)
    hnext (Nat.lt_of_le_of_lt hk (by omega : i < i + 2)) (r := r) (.within
      ((BlockLines.starts_nil (i + 2) 0).startLine hfirst.2 (max 0 (m.forward (i + 2)).column))
      (m := (m.forward (i + 2)).next)) rfl
  refine ⟨m', hcolumn', hline, ?_⟩
  have hwithin : ∀ j < i + 2, (none : Option Nat).all (m.column + j < ·) = true := fun _ _ => rfl
  have hsettle : (⟨false, none, max 0 (m.forward (i + 2)).column, [], [], [], false⟩ :
      BlockLines).settle (i + 1) = i + 2 := by
    show max (max 0 (m.column + (i + 2))) (max (i + 1) 1) = i + 2
    omega
  rw [literalLines, if_neg (by rw [hfirst.2]; exact Bool.false_ne_true)]
  show readLines _ _ _ false _ m (indentation (i + 2) ++ c :: literalLines (i + 2) false r ++ _) = _
  rw [List.append_assoc, readLines_indentation _ hwithin, List.cons_append,
    readLines_first hfirst.2 (.inr hblank) hsettle (by show m.column + (i + 2) = i + 2; omega)]
  exact hread

/-- **A literal scalar is read back**, up to what is no deeper than the block around it. -/
theorem readBlock_literal (start m : Mark) {next : Text} {i k : Nat} (hs : s ≠ [])
    (hliteral : allowsLiteral s = true) (hnext : IsNext next) (hk : k ≤ i) :
    ∃ m' : Mark, m'.column = k ∧ m.line < m'.line
      ∧ readBlock start false i m
          (literalHints s ++ '\n' :: (literalLines (i + 2) true s ++ (indentation k ++ next)))
        = .ok ⟨s, m', next⟩ := by
  unfold readBlock
  rw [readHeader_literalHints]
  simp only [List.drop_left, afterComment_newline, isBreak_newline, if_true]
  have hleast : ((i : Int) + 1).toNat = i + 1 := rfl
  rw [hleast]
  cases hhides : hidesIndentation s with
  | true =>
      have hgiven : (max (i : Int) 0).toNat + 2 = i + 2 := by omega
      simp only [if_true, hgiven]
      obtain ⟨m', hcolumn, hline, hread⟩ := readLines_literalLines start (i + 1)
        hnext (Nat.lt_of_le_of_lt hk (by omega : i < i + 2)) (.starts
          (m := (m.forward (literalHints s).length).newLine) (BlockLines.starts_nil (i + 2) 0) rfl)
        (List.nil_append s)
      exact ⟨m', hcolumn, hline, hread⟩
  | false =>
      obtain ⟨m', hcolumn, hline, hread⟩ := readLines_unsettled start hs hliteral hhides
        hnext hk (m := (m.forward (literalHints s).length).newLine) rfl
      exact ⟨m', hcolumn, hline, hread⟩

end Crosswalk.Yaml
