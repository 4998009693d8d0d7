/-
  Crosswalk.Proofs.Yaml.PlainText
  ──────────────────────────────────────
  **PLAIN SCALARS ARE READ BACK.**

  A plain scalar stays on one line.  It goes on up to the break behind it,
  and over the white space to what comes next; a key goes on up to its colon.

    • `readPlain_text`: a text with the next line behind it,
    • `readPlain_word`: a key with its colon behind it.
-/
import Crosswalk.Proofs.Yaml.Quoted
import Crosswalk.Yaml.PlainScalar

namespace Crosswalk.Yaml

variable {c : Char} {s p rest tail : Text} {g : Gap} {m finish start : Mark} {indent : Int}

/-! ## §1. One character. -/

/-- Texts that are put before a scalar one after the other. -/
theorem PlainScalar.map_after (x : Except Fault PlainScalar) (s t : Text) :
    (x.map (after s)).map (after t) = x.map (after (t ++ s)) := by
  cases x with
  | error f => rfl
  | ok r =>
      show Except.ok (⟨t ++ (s ++ r.value), r.finish, r.mark, r.rest, r.broken⟩ : PlainScalar) = _
      rw [← List.append_assoc]
      rfl

theorem PlainScalar.map_after_nil (x : Except Fault PlainScalar) : x.map (after []) = x := by
  cases x with
  | error f => rfl
  | ok r => rfl

theorem readPlain_break (P : PlainPlace) (h : isBreak c = true) (s : Text) :
    readPlain P finish g m (c :: s) = readPlain P finish (g.addBreak c) m.newLine s := by
  rw [readPlain]
  simp only [h, if_true]

theorem readPlain_space (P : PlainPlace) (s : Text) :
    readPlain P finish g m (' ' :: s) = readPlain P finish (g.addBlank ' ') m.next s := by
  rw [readPlain]
  have hno : ¬(g.broken = true ∧ (m.column : Int) < P.indent ∧ ' ' = '\t') := fun h =>
    absurd h.2.2 (by decide)
  simp only [if_neg hno]
  rfl

/-- A character that belongs to the scalar. -/
theorem readPlain_char (hbreak : isBreak c = false) (hblank : isBlank c = false)
    (hgap : g ≠ .none → indent ≤ m.column ∧ c ≠ '#')
    (hedge : atDocumentEdge m (c :: rest) = false) (hcolon : c = ':' → atGap rest = false) :
    readPlain ⟨start, false, indent⟩ finish g m (c :: rest)
      = (readPlain ⟨start, false, indent⟩ m.next .none m.next rest).map
          (.after (g.folded ++ [c])) := by
  have hstop : ¬(g ≠ .none ∧ ((!false) = true ∧ (m.column : Int) < indent ∨ c = '#')) := by
    rintro ⟨hg, ⟨-, hcolumn⟩ | hsign⟩
    · exact absurd hcolumn (Int.not_lt.mpr (hgap hg).1)
    · exact (hgap hg).2 hsign
  have hbad : isBadColon false (c :: rest) = false := by
    unfold isBadColon
    split
    · rfl
    · rfl
  have hends : endsPlain false (c :: rest) = false := by
    unfold endsPlain
    split
    · rename_i heq
      cases heq
    · rename_i heq
      obtain ⟨rfl, rfl⟩ := List.cons.inj heq
      exact hcolon rfl
    · rfl
  rw [readPlain]
  simp only [hbreak, hblank, hedge, hbad, hends, if_neg hstop, Bool.false_eq_true, if_false]

/-! ## §2. What follows. -/

/-- What may come next: nothing, or a character that is no white space. -/
def IsNext (next : Text) : Prop :=
  ∀ c ∈ next.head?, isBreak c = false ∧ isBlank c = false

/-- The beginning of the next line is passed over. -/
theorem readPlain_indentation (P : PlainPlace) (hbroken : g.broken = true) (s : Text) :
    ∀ (n : Nat) (m : Mark),
      readPlain P finish g m (indentation n ++ s) = readPlain P finish g (m.forward n) s
  | 0, m => rfl
  | n + 1, m => by
      rw [indentation_succ, List.cons_append, readPlain_space, g.addBlank_of_broken hbroken,
        readPlain_indentation P hbroken s n m.next, Mark.next_forward]

/-- A line that is indented too little ends the scalar. -/
theorem readPlain_stop {next : Text} (hnext : IsNext next) (hbroken : g.broken = true)
    (hcolumn : (m.column : Int) < indent) :
    readPlain ⟨start, false, indent⟩ finish g m next = .ok ⟨[], finish, m, next, true⟩ := by
  cases next with
  | nil =>
      rw [readPlain, hbroken]
  | cons c rest =>
      obtain ⟨hbreak, hblank⟩ := hnext c rfl
      have hstop : g ≠ .none ∧ ((!false) = true ∧ (m.column : Int) < indent ∨ c = '#') := by
        refine ⟨?_, .inl ⟨rfl, hcolumn⟩⟩
        rintro rfl
        cases hbroken
      rw [readPlain]
      simp only [hbreak, hblank, if_pos hstop, hbroken, Bool.false_eq_true, if_false]

/-- The end of the line behind a scalar. -/
theorem readPlain_lineEnd {next : Text} {n : Nat} (hnext : IsNext next) (hn : (n : Int) < indent) :
    readPlain ⟨start, false, indent⟩ finish .none m ('\n' :: (indentation n ++ next))
      = .ok ⟨[], finish, ⟨m.line + 1, n⟩, next, true⟩ := by
  have hbroken : (Gap.none.addBreak '\n').broken = true := rfl
  rw [readPlain_break _ isBreak_newline, readPlain_indentation _ hbroken,
    readPlain_stop hnext hbroken]
  · show Except.ok (⟨[], finish, ⟨m.line + 1, 0 + n⟩, next, true⟩ : PlainScalar) = _
    rw [Nat.zero_add]
  · show ((0 + n : Nat) : Int) < indent
    rw [Nat.zero_add]
    exact hn

/-- The colon behind a key. -/
theorem readPlain_colon (hcolumn : 0 < m.column) (hrest : atGap rest = true) :
    readPlain ⟨start, false, indent⟩ finish .none m (':' :: rest)
      = .ok ⟨[], finish, m, ':' :: rest, false⟩ := by
  have hbad : isBadColon false (':' :: rest) = false := by
    unfold isBadColon
    split
    · rfl
    · rfl
  have hends : endsPlain false (':' :: rest) = true := hrest
  rw [readPlain]
  simp only [atDocumentEdge_of_column hcolumn, hbad, hends]
  rfl

/-! ## §3. Texts. -/

/-- Characters that may stand next to each other in a plain scalar. -/
theorem holdsSign_cons (h : holdsSign (c :: s) = false) :
    holdsSign s = false ∧ ∀ d rest, s = d :: rest →
      (d = ':' → atGap rest = false) ∧ (isBlank c = true → d ≠ '#') := by
  cases s with
  | nil => exact ⟨rfl, fun d rest heq => by cases heq⟩
  | cons d rest =>
      rw [holdsSign, Bool.or_eq_false_iff, Bool.or_eq_false_iff] at h
      obtain ⟨⟨hcolon, hsign⟩, hrest⟩ := h
      refine ⟨hrest, fun d' rest' heq => ?_⟩
      obtain ⟨rfl, rfl⟩ := List.cons.inj heq
      refine ⟨?_, ?_⟩
      · rintro rfl
        exact hcolon
      · rintro hblank rfl
        rw [hblank] at hsign
        cases hsign

/-- The characters of a text go to a plain scalar, up to the end of the line.  The induction is on
the text that is left; the gap before it holds spaces only. -/
theorem readPlain_chars (start : Mark) (tail : Text) :
    ∀ {s p : Text} {g : Gap} {m : Mark} (finish : Mark),
    g.Keeps p → g.broken = false → (∀ c ∈ s, isPrintable c = true ∧ isBreak c = false) →
      holdsSign s = false →
      (∀ c rest, s = c :: rest → (c = ':' → atGap rest = false) ∧ (g ≠ .none → c ≠ '#')) →
      s.getLast? ≠ some ' ' → (s = [] → g = .none) → 0 < m.column → indent ≤ m.column →
      ∃ finish' : Mark,
        readPlain ⟨start, false, indent⟩ finish g m (s ++ '\n' :: tail)
          = (readPlain ⟨start, false, indent⟩ finish' .none (m.forward s.length)
              ('\n' :: tail)).map (.after (p ++ s))
  | [], p, g, m, finish, hkeeps, _, _, _, _, _, hempty, _, _ => by
      obtain rfl := hempty rfl
      obtain rfl : p = [] := hkeeps.folded_eq.symm
      exact ⟨finish, (PlainScalar.map_after_nil _).symm⟩
  | c :: s, p, g, m, finish, hkeeps, hbroken, hchars, hsigns, hhead, hlast, _, hcolumn, hindent => by
      obtain ⟨hprintable, hbreak⟩ := hchars c List.mem_cons_self
      obtain ⟨hcolon, hsign⟩ := hhead c s rfl
      obtain ⟨hsigns', hhead'⟩ := holdsSign_cons hsigns
      have hchars' : ∀ d ∈ s, isPrintable d = true ∧ isBreak d = false := fun d hd =>
        hchars d (List.mem_cons_of_mem c hd)
      have hlast' : s.getLast? ≠ some ' ' := by
        intro heq
        apply hlast
        rw [List.getLast?_cons, heq]
        rfl
      have hindent' : indent ≤ (m.next.column : Int) := by
        show indent ≤ ((m.column + 1 : Nat) : Int)
        omega
      cases hblank : isBlank c with
      | true =>
          obtain rfl := eq_space_of_isBlank hprintable hblank
          have hs : s ≠ [] := by
            rintro rfl
            exact hlast rfl
          obtain ⟨finish', hread⟩ := readPlain_chars start tail (m := m.next) finish
            (hkeeps.addBlank hbroken) (Gap.broken_addBlank hbroken ' ') hchars' hsigns'
            (fun d rest heq => ⟨(hhead' d rest heq).1, fun _ => (hhead' d rest heq).2 hblank⟩)
            hlast' (fun hnil => absurd hnil hs) (Nat.succ_pos _) hindent'
          refine ⟨finish', ?_⟩
          rw [List.cons_append, readPlain_space, hread, Mark.next_forward, List.append_assoc,
            List.singleton_append]
          rfl
      | false =>
          obtain ⟨finish', hread⟩ := readPlain_chars start tail (m := m.next) m.next
            Gap.keeps_none rfl hchars' hsigns'
            (fun d rest heq => ⟨(hhead' d rest heq).1, fun hno => absurd rfl hno⟩)
            hlast' (fun _ => rfl) (Nat.succ_pos _) hindent'
          refine ⟨finish', ?_⟩
          rw [List.cons_append, readPlain_char hbreak hblank (fun hg => ⟨hindent, hsign hg⟩)
            (atDocumentEdge_of_column hcolumn _)
            (fun heq => (atGap_append_newline s tail).trans (hcolon heq)),
            hread, Mark.next_forward, hkeeps.folded_eq, PlainScalar.map_after, List.append_assoc]
          rfl

/-- What `allowsPlain` makes sure of. -/
theorem allowsPlain_spec (h : allowsPlain s = true) :
    (∀ c ∈ s, isPrintable c = true ∧ isBreak c = false) ∧ s.getLast? ≠ some ' '
      ∧ s.head? ≠ some ' ' ∧ beginsAsSign s = false ∧ holdsSign s = false := by
  unfold allowsPlain needsEscapes atEnds at h
  simp only [Bool.not_eq_true', Bool.or_eq_false_iff, Bool.not_eq_false', List.all_eq_true,
    List.any_eq_false] at h
  obtain ⟨⟨⟨⟨⟨hprintable, -⟩, hfirst, hlast⟩, hbreak⟩, hbegins⟩, hholds⟩ := h
  refine ⟨fun c hc => ⟨hprintable c hc, by simpa using hbreak c hc⟩, ?_, ?_, hbegins, hholds⟩
  · intro heq
    rw [heq] at hlast
    cases hlast
  · intro heq
    rw [heq] at hfirst
    cases hfirst

/-- The signs that no plain scalar begins with. -/
def signs : Text := "#,[]\x7b\x7d&*!|>'\"%@`".toList

theorem beginsAsSign_cons (h : beginsAsSign (c :: s) = false) :
    c ∉ signs ∧ ((c = '?' ∨ c = ':' ∨ c = '-') → atGap s = false) := by
  unfold beginsAsSign at h
  simp only [Bool.or_eq_false_iff, Bool.and_eq_false_iff] at h
  obtain ⟨⟨⟨hsign, hgap⟩, -⟩, -⟩ := h
  refine ⟨?_, ?_⟩
  · intro hmem
    rw [← Bool.not_eq_true, List.contains_iff_mem] at hsign
    exact hsign hmem
  · intro hc
    obtain hno | hno := hgap
    · rw [← Bool.not_eq_true, List.contains_iff_mem] at hno
      exfalso
      apply hno
      obtain rfl | rfl | rfl := hc
      · decide
      · decide
      · decide
    · exact hno

/-- **A plain scalar is read back**, up to the next line. -/
theorem readPlain_text (start finish : Mark) {next : Text} {n : Nat} (hs : s ≠ [])
    (hplain : allowsPlain s = true) (hnext : IsNext next) (hcolumn : 0 < m.column)
    (hindent : indent ≤ m.column) (hn : (n : Int) < indent) :
    ∃ finish' : Mark,
      readPlain ⟨start, false, indent⟩ finish .none m (s ++ '\n' :: (indentation n ++ next))
        = .ok ⟨s, finish', ⟨m.line + 1, n⟩, next, true⟩ := by
  obtain ⟨hchars, hlast, -, hbegins, hholds⟩ := allowsPlain_spec hplain
  have hhead : ∀ c rest, s = c :: rest →
      (c = ':' → atGap rest = false) ∧ (Gap.none ≠ Gap.none → c ≠ '#') := by
    rintro c rest rfl
    exact ⟨fun hc => (beginsAsSign_cons hbegins).2 (.inr (.inl hc)), fun hno => absurd rfl hno⟩
  obtain ⟨finish', hread⟩ := readPlain_chars start (indentation n ++ next) finish
    Gap.keeps_none rfl hchars hholds hhead hlast (fun _ => rfl) hcolumn hindent
  refine ⟨finish', ?_⟩
  rw [hread, readPlain_lineEnd hnext hn]
  show Except.ok (PlainScalar.after ([] ++ s) _) = _
  unfold PlainScalar.after
  rw [List.nil_append, List.append_nil]
  rfl

/-! ## §4. Keys. -/

/-- A word of ASCII letters. -/
def IsWord (s : Text) : Prop :=
  s ≠ [] ∧ ∀ c ∈ s, c.isAlpha = true

instance (s : Text) : Decidable (IsWord s) :=
  decidable_of_iff (s ≠ [] ∧ s.all Char.isAlpha = true) (and_congr_right fun _ => List.all_eq_true)

theorem toNat_of_isAlpha (h : c.isAlpha = true) : 0x41 ≤ c.toNat ∧ c.toNat ≤ 0x7A := by
  unfold Char.isAlpha Char.isUpper Char.isLower at h
  simp only [Bool.or_eq_true, Bool.and_eq_true, decide_eq_true_eq, ge_iff_le,
    UInt32.le_iff_toNat_le] at h
  show 0x41 ≤ c.val.toNat ∧ c.val.toNat ≤ 0x7A
  have hbounds : (65 ≤ c.val.toNat ∧ c.val.toNat ≤ 90) ∨ (97 ≤ c.val.toNat ∧ c.val.toNat ≤ 122) := h
  omega

/-- A letter is no sign. -/
theorem ne_of_isAlpha {d : Char} (h : c.isAlpha = true) (hd : d.isAlpha = false) : c ≠ d := by
  rintro rfl
  rw [h] at hd
  cases hd

theorem not_mem_signs_of_isAlpha (h : c.isAlpha = true) : c ∉ signs := by
  have hall : signs.all (fun d => !d.isAlpha) = true := by decide
  intro hmem
  have hnot := List.all_eq_true.mp hall c hmem
  rw [h] at hnot
  cases hnot

theorem not_isBreak_of_isAlpha (h : c.isAlpha = true) : isBreak c = false := by
  have hbounds := toNat_of_isAlpha h
  unfold isBreak
  rw [Bool.or_eq_false_iff, Bool.or_eq_false_iff, beq_eq_false_iff_ne, beq_eq_false_iff_ne,
    beq_eq_false_iff_ne]
  exact ⟨⟨ne_of_isAlpha h rfl, by omega⟩, by omega⟩

theorem not_isBlank_of_isAlpha (h : c.isAlpha = true) : isBlank c = false := by
  rw [isBlank_eq_false]
  exact ⟨ne_of_isAlpha h rfl, ne_of_isAlpha h rfl⟩

theorem atDocumentSign_of_ne {sign : Char} (h : c ≠ sign) (s : Text) :
    atDocumentSign sign (c :: s) = false := by
  unfold atDocumentSign
  split
  · rename_i heq
    obtain ⟨rfl, -⟩ := List.cons.inj heq
    rw [beq_eq_false_iff_ne.mpr h]
    rfl
  · rfl

/-- No document starts or ends with a letter. -/
theorem atDocumentEdge_of_isAlpha (h : c.isAlpha = true) (s : Text) :
    atDocumentEdge m (c :: s) = false := by
  unfold atDocumentEdge
  rw [atDocumentSign_of_ne (ne_of_isAlpha h rfl), atDocumentSign_of_ne (ne_of_isAlpha h rfl),
    Bool.or_false, Bool.and_false]

/-- The letters of a key go to a plain scalar. -/
theorem readPlain_letters (start : Mark) (indent : Int) (tail : Text) :
    ∀ {s : Text} {m : Mark} (finish : Mark),
    (∀ c ∈ s, c.isAlpha = true) →
      ∃ finish' : Mark,
        readPlain ⟨start, false, indent⟩ finish .none m (s ++ tail)
          = (readPlain ⟨start, false, indent⟩ finish' .none (m.forward s.length) tail).map
              (.after s)
  | [], m, finish, _ => ⟨finish, (PlainScalar.map_after_nil _).symm⟩
  | c :: s, m, finish, hletters => by
      have hc := hletters c List.mem_cons_self
      obtain ⟨finish', hread⟩ := readPlain_letters start indent tail (m := m.next) m.next
        fun d hd => hletters d (List.mem_cons_of_mem c hd)
      refine ⟨finish', ?_⟩
      rw [List.cons_append, readPlain_char (not_isBreak_of_isAlpha hc) (not_isBlank_of_isAlpha hc)
        (fun hno => absurd rfl hno) (atDocumentEdge_of_isAlpha hc _)
        (fun heq => absurd heq (ne_of_isAlpha hc rfl)), hread, Mark.next_forward,
        PlainScalar.map_after]
      rfl

/-- **A key is read back**, up to its colon. -/
theorem readPlain_word (start finish m : Mark) (indent : Int) (hs : IsWord s)
    (hrest : atGap rest = true) :
    ∃ finish' : Mark,
      readPlain ⟨start, false, indent⟩ finish .none m (s ++ ':' :: rest)
        = .ok ⟨s, finish', m.forward s.length, ':' :: rest, false⟩ := by
  obtain ⟨finish', hread⟩ := readPlain_letters start indent (':' :: rest) (m := m) finish hs.2
  have hcolumn : 0 < (m.forward s.length).column :=
    Nat.add_pos_right _ (List.length_pos_iff.mpr hs.1)
  refine ⟨finish', ?_⟩
  rw [hread, readPlain_colon hcolumn hrest]
  show Except.ok (PlainScalar.after s _) = _
  unfold PlainScalar.after
  rw [List.append_nil]

end Crosswalk.Yaml
