/-
  Crosswalk.Proofs.Yaml.Quoted
  ──────────────────────────────────────
  **SCALARS BETWEEN QUOTES ARE READ BACK.**

  Between single quotes a text may go over several lines: its separators of
  Unicode stand for themselves, and the spaces that the writer puts behind
  them do not count.  Between double quotes a text stays on one line, since
  every break is an escape.

    • `readQuoted_single`: a text between single quotes,
    • `readQuoted_double`: a text between double quotes.
-/
import Crosswalk.Proofs.Yaml.Character
import Crosswalk.Yaml.QuotedScalar

namespace Crosswalk.Yaml

variable {c quote : Char} {s p tail : Text} {n : Nat} {g : Gap} {m start : Mark}

/-! ## §1. One character. -/

/-- Texts that are put before a scalar one after the other. -/
theorem ReadScalar.map_after (x : Except Fault ReadScalar) (s t : Text) :
    (x.map (after s)).map (after t) = x.map (after (t ++ s)) := by
  cases x with
  | error f => rfl
  | ok r =>
      show Except.ok (⟨t ++ (s ++ r.value), r.mark, r.rest⟩ : ReadScalar) = _
      rw [← List.append_assoc]
      rfl

theorem readQuoted_break (h : isBreak c = true) (s : Text) :
    readQuoted start quote (.gap g) m (c :: s)
      = readQuoted start quote (.gap (g.addBreak c)) m.newLine s := by
  rw [readQuoted.eq_def]
  simp only [h, if_true]

theorem readQuoted_blank (h : isBlank c = true) (s : Text) :
    readQuoted start quote (.gap g) m (c :: s)
      = readQuoted start quote (.gap (g.addBlank c)) m.next s := by
  have hbreak : isBreak c = false := by
    cases hb : isBreak c with
    | false => rfl
    | true => rw [not_isBlank_of_isBreak hb] at h; cases h
  rw [readQuoted.eq_def]
  simp only [hbreak, h, if_true, Bool.false_eq_true, if_false]

/-- Off the beginning of a line no document starts or ends. -/
theorem atDocumentEdge_of_column (h : 0 < m.column) (s : Text) : atDocumentEdge m s = false := by
  unfold atDocumentEdge
  rw [beq_eq_false_iff_ne.mpr (Nat.ne_of_gt h), Bool.false_and]

theorem readQuoted_char (hbreak : isBreak c = false) (hblank : isBlank c = false)
    (hcolumn : 0 < m.column) (hquote : c ≠ quote) (hescape : (c == '\\' && quote == '"') = false)
    (s : Text) :
    readQuoted start quote (.gap g) m (c :: s)
      = (readQuoted start quote .word m.next s).map (.after (g.folded ++ [c])) := by
  rw [readQuoted.eq_def]
  simp only [hbreak, hblank, atDocumentEdge_of_column hcolumn, if_neg hquote, hescape,
    Bool.false_eq_true, if_false]

/-- The closing quote. -/
theorem readQuoted_close (hbreak : isBreak quote = false) (hblank : isBlank quote = false)
    (hcolumn : 0 < m.column) (tail : Text) :
    readQuoted start quote (.gap g) m (quote :: '\n' :: tail)
      = .ok ⟨g.folded, m.next, '\n' :: tail⟩ := by
  rw [readQuoted.eq_def]
  simp only [hbreak, hblank, atDocumentEdge_of_column hcolumn, Bool.false_eq_true, if_false,
    if_true]
  rfl

/-- A quote between single quotes. -/
theorem readQuoted_twice (hcolumn : 0 < m.column) (s : Text) :
    readQuoted start '\'' (.gap g) m ('\'' :: '\'' :: s)
      = (readQuoted start '\'' .word (m.forward 2) s).map (.after (g.folded ++ ['\''])) := by
  rw [readQuoted.eq_def]
  simp only [atDocumentEdge_of_column hcolumn, Bool.false_eq_true, if_false, if_true]
  rfl

/-! ## §2. Single quotes. -/

/-- Neighbours are of two kinds when the first two characters are, or two further ones. -/
theorem hasPair_cons {first second : Char → Bool} :
    hasPair first second (c :: s) = false ↔
      (∀ d ∈ s.head?, first c = true → second d = false) ∧ hasPair first second s = false := by
  cases s with
  | nil => simp [hasPair]
  | cons d s =>
      rw [hasPair, Bool.or_eq_false_iff]
      simp [Bool.and_eq_false_imp]

/-- A gap that stands for the text it was read from: spaces on a line, or separators of Unicode. -/
inductive Gap.Keeps : Gap → Text → Prop
  | blanks (bs : Text) : Gap.Keeps ⟨bs, false, [], []⟩ bs
  | breaks (b : Char) (hb : b ≠ '\n') (more : Text) : Gap.Keeps ⟨[], true, [b], more⟩ (b :: more)

theorem Gap.Keeps.folded_eq (h : g.Keeps p) : g.folded = p := by
  cases h with
  | blanks bs => rfl
  | breaks b hb more =>
      unfold Gap.folded
      rw [if_pos rfl, if_neg (fun heq => hb (List.singleton_inj.mp heq))]
      rfl

theorem Gap.keeps_none : Gap.none.Keeps [] := .blanks []

theorem Gap.broken_addBreak (g : Gap) (c : Char) : (g.addBreak c).broken = true := by
  unfold Gap.addBreak
  split
  · assumption
  · rfl

theorem Gap.blanks_addBreak (h : g.blanks = []) (c : Char) : (g.addBreak c).blanks = [] := by
  unfold Gap.addBreak
  split
  · exact h
  · rfl

/-- Blanks behind a break do not count. -/
theorem Gap.addBlank_of_broken (h : g.broken = true) (c : Char) : g.addBlank c = g := if_pos h

theorem Gap.broken_addBlank (h : g.broken = false) (c : Char) : (g.addBlank c).broken = false := by
  unfold Gap.addBlank
  rw [if_neg (by rw [h]; exact Bool.false_ne_true)]
  exact h

/-- A gap may have a character behind it: no space stands next to a break. -/
def Gap.Meets (g : Gap) (c : Char) : Prop :=
  (isBreak c = true → g.blanks = []) ∧ (isBlank c = true → g.broken = false)

/-- Spaces behind a break do not count. -/
theorem readQuoted_indentation (hbroken : g.broken = true) (s : Text) : ∀ (n : Nat) (m : Mark),
    readQuoted start quote (.gap g) m (indentation n ++ s)
      = readQuoted start quote (.gap g) (m.forward n) s
  | 0, m => rfl
  | n + 1, m => by
      rw [indentation_succ, List.cons_append, readQuoted_blank rfl, g.addBlank_of_broken hbroken,
        readQuoted_indentation hbroken s n m.next, Mark.next_forward]

/-- The beginning of a line is passed over, wherever the reader is. -/
theorem readQuoted_lineStart (start : Mark) (quote : Char) (hn : 0 < n)
    (hcolumn : g.broken = false → 0 < m.column) (s : Text) :
    ∃ m' : Mark, m'.line = m.line ∧ 0 < m'.column
      ∧ readQuoted start quote (.gap g) m ((if g.broken then indentation n else []) ++ s)
        = readQuoted start quote (.gap g) m' s := by
  cases hbroken : g.broken with
  | true =>
      refine ⟨m.forward n, rfl, ?_, readQuoted_indentation hbroken s n m⟩
      show 0 < m.column + n
      omega
  | false => exact ⟨m, rfl, hcolumn hbroken, rfl⟩

/-- Behind a gap that stands for `p`, the rest `s` of a text between single quotes is read to its
end. -/
def ReadsSingle (start : Mark) (n : Nat) (tail : Text) (g : Gap) (p s : Text) : Prop :=
  ∀ m : Mark, (g.broken = false → 0 < m.column) →
    ∃ m' : Mark, m.line ≤ m'.line
      ∧ readQuoted start '\'' (.gap g) m (singleQuotedFrom n g.broken s ++ '\n' :: tail)
        = .ok ⟨p ++ s, m', '\n' :: tail⟩

theorem ReadsSingle.nil (hn : 0 < n) (hkeeps : g.Keeps p) : ReadsSingle start n tail g p [] := by
  intro m hcolumn
  obtain ⟨m', hline, hcolumn', hstart⟩ :=
    readQuoted_lineStart start '\'' hn hcolumn ('\'' :: '\n' :: tail)
  refine ⟨m'.next, Nat.le_of_eq hline.symm, ?_⟩
  show readQuoted start '\'' (.gap g) m
    (((if g.broken then indentation n else []) ++ ['\'']) ++ '\n' :: tail) = _
  rw [List.append_assoc, List.singleton_append, hstart, readQuoted_close rfl rfl hcolumn',
    hkeeps.folded_eq, List.append_nil]

/-- A separator is kept, and the next line begins behind it. -/
theorem ReadsSingle.separator (hbreak : isBreak c = true)
    (h : ReadsSingle start n tail (g.addBreak c) (p ++ [c]) s) :
    ReadsSingle start n tail g p (c :: s) := by
  intro m _
  obtain ⟨m', hle, hread⟩ := h m.newLine fun hno => by
    rw [g.broken_addBreak c] at hno
    cases hno
  rw [g.broken_addBreak c] at hread
  refine ⟨m', Nat.le_trans (Nat.le_succ m.line) hle, ?_⟩
  rw [singleQuotedFrom, if_pos hbreak, List.cons_append, readQuoted_break hbreak, hread,
    List.append_assoc, List.singleton_append]

/-- A space within a line. -/
theorem ReadsSingle.space (hbroken : g.broken = false)
    (h : ReadsSingle start n tail (g.addBlank ' ') (p ++ [' ']) s) :
    ReadsSingle start n tail g p (' ' :: s) := by
  intro m _
  obtain ⟨m', hle, hread⟩ := h m.next (fun _ => Nat.succ_pos m.column)
  rw [Gap.broken_addBlank hbroken] at hread
  refine ⟨m', hle, ?_⟩
  rw [hbroken]
  show readQuoted start '\'' (.gap g) m (' ' :: (singleQuotedFrom n false s ++ '\n' :: tail)) = _
  rw [readQuoted_blank rfl, hread, List.append_assoc, List.singleton_append]

/-- A character of a word: what was read before it is settled. -/
theorem ReadsSingle.char (hn : 0 < n) (hkeeps : g.Keeps p) (hbreak : isBreak c = false)
    (hblank : isBlank c = false) (h : ReadsSingle start n tail .none [] s) :
    ReadsSingle start n tail g p (c :: s) := by
  intro m hcolumn
  obtain ⟨m₁, hline₁, hcolumn₁, hstart⟩ := readQuoted_lineStart start '\'' hn hcolumn
    ((if c = '\'' then "''".toList else [c]) ++ (singleQuotedFrom n false s ++ '\n' :: tail))
  rw [singleQuotedFrom, if_neg (by rw [hbreak]; exact Bool.false_ne_true), List.append_assoc,
    List.append_assoc, hstart]
  by_cases hquote : c = '\''
  · obtain ⟨m', hle, hread⟩ := h (m₁.forward 2) (fun _ => Nat.succ_pos _)
    refine ⟨m', hline₁ ▸ hle, ?_⟩
    subst hquote
    show readQuoted start '\'' (.gap g) m₁
      ('\'' :: '\'' :: (singleQuotedFrom n Gap.none.broken s ++ '\n' :: tail)) = _
    rw [readQuoted_twice hcolumn₁]
    show (readQuoted start '\'' (.gap .none) _ _).map _ = _
    rw [hread, hkeeps.folded_eq]
    show Except.ok (⟨(p ++ ['\'']) ++ s, m', '\n' :: tail⟩ : ReadScalar) = _
    rw [List.append_assoc, List.singleton_append]
  · obtain ⟨m', hle, hread⟩ := h m₁.next (fun _ => Nat.succ_pos _)
    refine ⟨m', hline₁ ▸ hle, ?_⟩
    rw [if_neg hquote]
    show readQuoted start '\'' (.gap g) m₁
      (c :: (singleQuotedFrom n Gap.none.broken s ++ '\n' :: tail)) = _
    rw [readQuoted_char hbreak hblank hcolumn₁ hquote (Bool.and_false _)]
    show (readQuoted start '\'' (.gap .none) _ _).map _ = _
    rw [hread, hkeeps.folded_eq]
    show Except.ok (⟨(p ++ [c]) ++ s, m', '\n' :: tail⟩ : ReadScalar) = _
    rw [List.append_assoc, List.singleton_append]

theorem Gap.Keeps.addBreak (h : g.Keeps p) (hc : c ≠ '\n') (hblanks : g.blanks = []) :
    (g.addBreak c).Keeps (p ++ [c]) := by
  cases h with
  | blanks =>
      obtain rfl : p = [] := hblanks
      exact .breaks c hc []
  | breaks b hb more => exact .breaks b hb (more ++ [c])

theorem Gap.Keeps.addBlank (h : g.Keeps p) (hbroken : g.broken = false) :
    (g.addBlank c).Keeps (p ++ [c]) := by
  cases h with
  | blanks => exact .blanks (p ++ [c])
  | breaks b hb more => cases hbroken

/-- A text is read back from any place within it.  The induction is on the text that is left. -/
theorem readsSingle (hn : 0 < n) (tail : Text) : ∀ {s p : Text} {g : Gap},
    g.Keeps p → IsPrinted s → '\n' ∉ s → hasPair isSpace isBreak s = false →
      hasPair isBreak isSpace s = false → (∀ c ∈ s.head?, g.Meets c) →
      ReadsSingle start n tail g p s
  | [], p, g, hkeeps, _, _, _, _, _ => .nil hn hkeeps
  | c :: s, p, g, hkeeps, hprintable, hline, hspace, hbreak, hmeets => by
      obtain ⟨hspaceNext, hspace'⟩ := hasPair_cons.mp hspace
      obtain ⟨hbreakNext, hbreak'⟩ := hasPair_cons.mp hbreak
      obtain ⟨hmeetsBreak, hmeetsBlank⟩ := hmeets c rfl
      have hline' : '\n' ∉ s := fun hmem => hline (List.mem_cons_of_mem c hmem)
      cases hisBreak : isBreak c with
      | true =>
          have hc : c ≠ '\n' := fun heq => hline (heq ▸ List.mem_cons_self)
          have hkeeps' := hkeeps.addBreak hc (hmeetsBreak hisBreak)
          -- behind a break no space comes next, and the gap holds no blanks
          have hmeets' : ∀ d ∈ s.head?, (g.addBreak c).Meets d := by
            intro d hd
            refine ⟨fun _ => ?_, fun hblank => ?_⟩
            · exact Gap.blanks_addBreak (hmeetsBreak hisBreak) c
            · obtain rfl := eq_space_of_isBlank (hprintable.tail d (List.mem_of_head? hd)) hblank
              exact absurd (hbreakNext ' ' hd hisBreak) (by decide)
          exact .separator hisBreak (readsSingle hn tail hkeeps' hprintable.tail hline' hspace'
            hbreak' hmeets')
      | false =>
          cases hisBlank : isBlank c with
          | true =>
              obtain rfl := eq_space_of_isBlank (hprintable c List.mem_cons_self) hisBlank
              have hbroken := hmeetsBlank hisBlank
              -- behind a space no break comes next
              have hmeets' : ∀ d ∈ s.head?, (g.addBlank ' ').Meets d := by
                intro d hd
                refine ⟨fun hd' => ?_, fun _ => ?_⟩
                · rw [hspaceNext d hd rfl] at hd'
                  cases hd'
                · exact Gap.broken_addBlank hbroken ' '
              exact .space hbroken (readsSingle hn tail (hkeeps.addBlank hbroken) hprintable.tail
                hline' hspace' hbreak' hmeets')
          | false =>
              exact .char hn hkeeps hisBreak hisBlank (readsSingle hn tail Gap.keeps_none
                hprintable.tail hline' hspace' hbreak' (fun _ _ => ⟨fun _ => rfl, fun _ => rfl⟩))

/-- What `allowsSingle` makes sure of. -/
theorem allowsSingle_spec (h : allowsSingle s = true) :
    IsPrinted s ∧ hasPair isSpace isBreak s = false
      ∧ hasPair isBreak isSpace s = false := by
  unfold allowsSingle needsEscapes at h
  simp only [Bool.not_eq_true', Bool.or_eq_false_iff, Bool.not_eq_false'] at h
  exact ⟨List.all_eq_true.mp h.1.1, h.1.2, h.2⟩

/-- **A text between single quotes is read back**, wherever its further lines begin. -/
theorem readQuoted_single (hn : 0 < n) (hsingle : allowsSingle s = true) (hline : '\n' ∉ s)
    (hcolumn : 0 < m.column) (tail : Text) :
    ∃ m' : Mark, m.line ≤ m'.line
      ∧ readQuoted start '\'' .word m (singleQuotedFrom n false s ++ '\n' :: tail)
        = .ok ⟨s, m', '\n' :: tail⟩ := by
  obtain ⟨hprintable, hspace, hbreak⟩ := allowsSingle_spec hsingle
  exact readsSingle hn tail Gap.keeps_none hprintable hline hspace hbreak
    (fun _ _ => ⟨fun _ => rfl, fun _ => rfl⟩) m (fun _ => hcolumn)

/-! ## §3. Escapes. -/

/-- An escape of one letter. -/
theorem readQuoted_letter {d e : Char} (hcolumn : 0 < m.column) (hbreak : isBreak d = false)
    (hd : escapedChar? d = some e) (s : Text) :
    readQuoted start '"' (.gap g) m ('\\' :: d :: s)
      = (readQuoted start '"' .word (m.forward 2) s).map (.after (g.folded ++ [e])) := by
  rw [readQuoted.eq_def]
  simp only [atDocumentEdge_of_column hcolumn, hbreak, hd, Bool.false_eq_true, if_false]
  rfl

/-- An escape by number. -/
theorem readQuoted_number {d : Char} {k : Nat} (hcolumn : 0 < m.column) (hbreak : isBreak d = false)
    (hletter : escapedChar? d = none) (hd : digitsAfter? d = some k) (s : Text) :
    readQuoted start '"' (.gap g) m ('\\' :: d :: s)
      = (readQuoted start '"' (.digits (m.forward 2) k 0) (m.forward 2) s).map
          (.after g.folded) := by
  rw [readQuoted.eq_def]
  simp only [atDocumentEdge_of_column hcolumn, hbreak, hletter, hd, Bool.false_eq_true, if_false]
  rfl

/-- The number that hexadecimal digits go on to. -/
def hexValue? (value : Nat) (ds : Text) : Option Nat :=
  ds.foldlM (fun n c => (Text.digit? 16 c).map (n * 16 + ·)) value

/-- Digits are read to the last one, and then stand for a character. -/
theorem readQuoted_digits {first : Mark} {k : Nat} : ∀ {ds : Text} {value : Nat} {m : Mark},
    ds ≠ [] → hexValue? value ds = some k → isCodePoint k = true →
      readQuoted start quote (.digits first ds.length value) m (ds ++ s)
        = (readQuoted start quote .word (m.forward ds.length) s).map (.after [Char.ofNat k])
  | [], _, _, hds, _, _ => absurd rfl hds
  | d :: ds, value, m, _, hvalue, hk => by
      unfold hexValue? at hvalue
      rw [List.foldlM_cons] at hvalue
      cases hd : Text.digit? 16 d with
      | none => rw [hd] at hvalue; cases hvalue
      | some x =>
          rw [hd] at hvalue
          have hrest : hexValue? (value * 16 + x) ds = some k := hvalue
          rw [List.cons_append, readQuoted]
          simp only [hd]
          cases ds with
          | nil =>
              obtain rfl : value * 16 + x = k := Option.some.inj hrest
              show (if 1 < 1 then _ else if _ then _ else _) = _
              rw [if_neg (Nat.lt_irrefl 1), if_pos hk]
              rfl
          | cons e ds =>
              rw [if_pos (by simp)]
              show readQuoted start quote (.digits first (e :: ds).length _) m.next _ = _
              rw [readQuoted_digits (List.cons_ne_nil e ds) hrest hk, Mark.next_forward]
              rfl

theorem isCodePoint_toNat (c : Char) : isCodePoint c.toNat = true := by
  have hvalid := c.valid
  unfold isCodePoint
  simp only [Bool.and_eq_true, Bool.not_eq_true', Bool.and_eq_false_iff, decide_eq_true_eq,
    decide_eq_false_iff_not]
  show c.toNat ≤ 0x10FFFF ∧ _
  have hcases : c.toNat < 0xD800 ∨ (0xDFFF < c.toNat ∧ c.toNat < 0x110000) := hvalid
  omega

/-! ## §4. Double quotes. -/

/-- The characters that are not written as they are: a few of one byte, and a few of two. -/
theorem toNat_of_not_isPrintable (h : isPrintable c = false) :
    c.toNat < 0x100 ∨ c.toNat ∈ [0xFEFF, 0xFFFE, 0xFFFF] := by
  have hvalid : c.toNat < 0xD800 ∨ (0xDFFF < c.toNat ∧ c.toNat < 0x110000) := c.valid
  unfold isPrintable at h
  simp only [Bool.or_eq_false_iff, Bool.and_eq_false_iff, decide_eq_false_iff_not,
    beq_eq_false_iff_ne, bne_eq_false_iff_eq] at h
  simp only [List.mem_cons, List.not_mem_nil, or_false]
  omega

/-- Only characters that are not printed are written by number. -/
theorem not_isPrintable_of_number
    (hplain : ¬(isPrintable c && !isBreak c && c != '"' && c != '\\') = true)
    (hletter : escapeLetter? c.toNat = none) : isPrintable c = false := by
  cases hprintable : isPrintable c with
  | false => rfl
  | true =>
      exfalso
      apply hplain
      simp only [hprintable, Bool.true_and, Bool.and_eq_true, Bool.not_eq_true', bne_iff_ne]
      refine ⟨⟨?_, ?_⟩, ?_⟩
      · cases hbreak : isBreak c with
        | false => rfl
        | true =>
            unfold isBreak at hbreak
            simp only [Bool.or_eq_true, beq_iff_eq] at hbreak
            obtain (rfl | hsep) | hsep := hbreak
            · cases hletter
            · rw [hsep] at hletter
              cases hletter
            · rw [hsep] at hletter
              cases hletter
      · rintro rfl
        cases hletter
      · rintro rfl
        cases hletter

/-- How a character is written between double quotes: as it is, by a letter, or by its number. -/
inductive DoubleQuoted (c : Char) : Text → Prop
  | plain (printable : isPrintable c = true) (line : isBreak c = false) (quote : c ≠ '"')
      (escape : c ≠ '\\') : DoubleQuoted c [c]
  | letter {d : Char} (h : escapeLetter? c.toNat = some d) : DoubleQuoted c ['\\', d]
  | byte (h : c.toNat < 0x100) : DoubleQuoted c ('\\' :: 'x' :: hexDigits 2 c.toNat)
  | two (h : c.toNat ∈ [0xFEFF, 0xFFFE, 0xFFFF]) :
      DoubleQuoted c ('\\' :: 'u' :: hexDigits 4 c.toNat)

theorem doubleQuoted (c : Char) : DoubleQuoted c (doubleQuotedChar c) := by
  unfold doubleQuotedChar
  by_cases hplain : (isPrintable c && !isBreak c && c != '"' && c != '\\') = true
  · rw [if_pos hplain]
    simp only [Bool.and_eq_true, Bool.not_eq_true', bne_iff_ne] at hplain
    exact .plain hplain.1.1.1 hplain.1.1.2 hplain.1.2 hplain.2
  · rw [if_neg hplain]
    show DoubleQuoted c ('\\' :: _)
    cases hletter : escapeLetter? c.toNat with
    | some d => exact .letter hletter
    | none =>
        obtain hsmall | hmem := toNat_of_not_isPrintable (not_isPrintable_of_number hplain hletter)
        · rw [if_pos (Nat.le_of_lt_succ hsmall)]
          exact .byte hsmall
        · have hbounds : ¬c.toNat ≤ 0xFF ∧ c.toNat ≤ 0xFFFF := by
            simp only [List.mem_cons, List.not_mem_nil, or_false] at hmem
            omega
          rw [if_neg hbounds.1, if_pos hbounds.2]
          exact .two hmem

/-- A letter of an escape is read as the character it was written for. -/
theorem escapedChar?_escapeLetter {k : Nat} {d : Char} (h : escapeLetter? k = some d) :
    isBreak d = false ∧ escapedChar? d = some (Char.ofNat k) := by
  unfold escapeLetter? at h
  split at h <;> cases h <;> exact ⟨rfl, rfl⟩

/-- Numbers of one byte have two digits. -/
theorem hexDigits_two : ∀ k < 0x100,
    (hexDigits 2 k).length = 2 ∧ hexValue? 0 (hexDigits 2 k) = some k := by
  decide +kernel

/-- The numbers of two bytes that are written in digits have four of them. -/
theorem hexDigits_four : ∀ k ∈ [0xFEFF, 0xFFFE, 0xFFFF],
    (hexDigits 4 k).length = 4 ∧ hexValue? 0 (hexDigits 4 k) = some k := by
  decide +kernel

/-- A character by its number. -/
theorem readQuoted_charNumber {d : Char} {ds : Text} {k : Nat} (hcolumn : 0 < m.column)
    (hbreak : isBreak d = false) (hletter : escapedChar? d = none) (hd : digitsAfter? d = some k)
    (hlength : ds.length = k) (hk : 0 < k) (hvalue : hexValue? 0 ds = some c.toNat) (s : Text) :
    ∃ m' : Mark, m'.line = m.line ∧ 0 < m'.column
      ∧ readQuoted start '"' (.gap g) m ('\\' :: d :: ds ++ s)
        = (readQuoted start '"' .word m' s).map (.after (g.folded ++ [c])) := by
  subst hlength
  refine ⟨(m.forward 2).forward ds.length, rfl, Nat.add_pos_right _ hk, ?_⟩
  show readQuoted start '"' (.gap g) m ('\\' :: d :: (ds ++ s)) = _
  rw [readQuoted_number hcolumn hbreak hletter hd, readQuoted_digits (List.ne_nil_of_length_pos hk)
    hvalue (isCodePoint_toNat c), Char.ofNat_toNat, ReadScalar.map_after]

/-- A character of a text between double quotes is read back in one go, unless it is a space. -/
theorem readQuoted_doubleQuotedChar (start : Mark) (hspace : c ≠ ' ') (hcolumn : 0 < m.column)
    (s : Text) :
    ∃ m' : Mark, m'.line = m.line ∧ 0 < m'.column
      ∧ readQuoted start '"' (.gap g) m (doubleQuotedChar c ++ s)
        = (readQuoted start '"' .word m' s).map (.after (g.folded ++ [c])) := by
  have hwritten := doubleQuoted c
  generalize doubleQuotedChar c = w at hwritten ⊢
  cases hwritten with
  | plain hprintable hline hquote hescape =>
      have hblank : isBlank c = false := by
        cases hb : isBlank c with
        | false => rfl
        | true => exact absurd (eq_space_of_isBlank hprintable hb) hspace
      exact ⟨m.next, rfl, Nat.succ_pos _,
        readQuoted_char hline hblank hcolumn hquote (by simp [hescape]) s⟩
  | letter hletter =>
      obtain ⟨hbreak, hd⟩ := escapedChar?_escapeLetter hletter
      rw [Char.ofNat_toNat] at hd
      exact ⟨m.forward 2, rfl, Nat.succ_pos _, readQuoted_letter hcolumn hbreak hd s⟩
  | byte hsmall =>
      obtain ⟨hlength, hvalue⟩ := hexDigits_two c.toNat hsmall
      exact readQuoted_charNumber hcolumn rfl rfl rfl hlength Nat.two_pos hvalue s
  | two hmem =>
      obtain ⟨hlength, hvalue⟩ := hexDigits_four c.toNat hmem
      exact readQuoted_charNumber hcolumn rfl rfl rfl hlength (Nat.succ_pos 3) hvalue s

theorem doubleQuotedChar_space : doubleQuotedChar ' ' = [' '] := rfl

/-- A text between double quotes is read back from any place within it.  The induction is on the
text that is left; the gap before it holds spaces only. -/
theorem readsDouble (tail : Text) : ∀ {s p : Text} {g : Gap} {m : Mark},
    g.Keeps p → g.broken = false → 0 < m.column →
      ∃ m' : Mark, m'.line = m.line
        ∧ readQuoted start '"' (.gap g) m (s.flatMap doubleQuotedChar ++ '"' :: '\n' :: tail)
          = .ok ⟨p ++ s, m', '\n' :: tail⟩
  | [], p, g, m, hkeeps, _, hcolumn => by
      refine ⟨m.next, rfl, ?_⟩
      rw [List.append_nil, ← hkeeps.folded_eq]
      exact readQuoted_close rfl rfl hcolumn tail
  | c :: s, p, g, m, hkeeps, hbroken, hcolumn => by
      rw [List.flatMap_cons, List.append_assoc]
      by_cases hspace : c = ' '
      · subst hspace
        obtain ⟨m', hline, hread⟩ := readsDouble tail (s := s) (m := m.next)
          (hkeeps.addBlank hbroken) (Gap.broken_addBlank hbroken ' ') (Nat.succ_pos _)
        refine ⟨m', hline, ?_⟩
        rw [doubleQuotedChar_space, List.singleton_append, readQuoted_blank rfl, hread,
          List.append_assoc, List.singleton_append]
      · obtain ⟨m₁, hline₁, hcolumn₁, hchar⟩ := readQuoted_doubleQuotedChar start (g := g)
          hspace hcolumn (s.flatMap doubleQuotedChar ++ '"' :: '\n' :: tail)
        obtain ⟨m', hline, hread⟩ := readsDouble tail (s := s) Gap.keeps_none rfl hcolumn₁
        refine ⟨m', hline.trans hline₁, ?_⟩
        rw [hchar]
        show (readQuoted start '"' (.gap .none) _ _).map _ = _
        rw [hread, hkeeps.folded_eq]
        show Except.ok (⟨(p ++ [c]) ++ s, m', '\n' :: tail⟩ : ReadScalar) = _
        rw [List.append_assoc, List.singleton_append]

/-- **A text between double quotes is read back**, on the line where it begins. -/
theorem readQuoted_double (s : Text) (hcolumn : 0 < m.column) (tail : Text) :
    ∃ m' : Mark, m'.line = m.line
      ∧ readQuoted start '"' .word m (s.flatMap doubleQuotedChar ++ '"' :: '\n' :: tail)
        = .ok ⟨s, m', '\n' :: tail⟩ :=
  readsDouble tail Gap.keeps_none rfl hcolumn

end Crosswalk.Yaml
