/-
  Crosswalk.Proofs.Yaml.Taken
  ──────────────────────────────────────
  **THE TOKENS THAT ARE WRITTEN.**

  Each part of a written text gives its tokens, and leaves the scanner before
  what is written next.

    • `Before.text`: a scalar in any style with the end of its line,
    • `Before.brackets`: an empty collection with the end of its line,
    • `Before.dash`: a dash, which may open a block,
    • `Before.key`: a key with its colon, which may open a block, too.
-/
import Crosswalk.Proofs.Yaml.Scanner
import Crosswalk.Yaml.Writer

namespace Crosswalk.Yaml

variable {c : Char} {s next rest : Text} {t : Tokens} {m : Mark} {cs : List (Option Candidate)}
  {allowed : Bool} {ks ks' : List TokenKind} {bs outer : List Int} {i k column : Nat}

namespace Tokens

/-! ## §1. The token at the front. -/

theorem takeToken_quote {quote : Char} (hquote : quote = '\'' ∨ quote = '"')
    (h : t.rest = quote :: rest) : t.takeToken = t.takeQuoted quote := by
  unfold takeToken
  rw [h]
  obtain rfl | rfl := hquote
  · simp [atDocumentSign_of_ne]
  · simp [atDocumentSign_of_ne]

theorem takeToken_bar (hflow : t.inFlow = false) (h : t.rest = '|' :: rest) :
    t.takeToken = t.takeBlockScalar false := by
  unfold takeToken
  rw [h, hflow]
  simp [atDocumentSign_of_ne]

theorem takeToken_dash (h : t.rest = '-' :: ' ' :: rest) : t.takeToken = t.takeDash := by
  have hstart : atDocumentSign '-' ('-' :: ' ' :: rest) = false := by
    unfold atDocumentSign
    split
    · rename_i heq
      obtain ⟨-, hb, -⟩ := List.cons.inj heq
      simp
    · rfl
  unfold takeToken
  rw [h, hstart]
  simp [atDocumentSign_of_ne, atGap, isBlank]

theorem takeToken_colon (h : t.rest = ':' :: rest) (hrest : atGap rest = true) :
    t.takeToken = t.takeValue := by
  unfold takeToken
  rw [h]
  simp [atDocumentSign_of_ne, hrest]

/-- The tokens of an empty collection. -/
inductive IsBrackets : Char → Char → TokenKind → TokenKind → Prop
  | sequence : IsBrackets '[' ']' .flowSequenceStart .flowSequenceEnd
  | mapping : IsBrackets '\x7b' '\x7d' .flowMappingStart .flowMappingEnd

theorem takeToken_opening {a b : Char} {first last : TokenKind} (hab : IsBrackets a b first last)
    (h : t.rest = a :: rest) : t.takeToken = t.takeOpening first := by
  unfold takeToken
  rw [h]
  cases hab with
  | sequence => simp [atDocumentSign_of_ne]
  | mapping => simp [atDocumentSign_of_ne]

theorem takeToken_closing {a b : Char} {first last : TokenKind} (hab : IsBrackets a b first last)
    (h : t.rest = b :: rest) : t.takeToken = t.takeClosing last := by
  unfold takeToken
  rw [h]
  cases hab with
  | sequence => simp [atDocumentSign_of_ne]
  | mapping => simp [atDocumentSign_of_ne]

/-- A text begins as a plain scalar. -/
structure BeginsPlain (c : Char) (rest : Text) : Prop where
  sign : c ∉ signs
  gap : (c = '?' ∨ c = ':' ∨ c = '-') → atGap rest = false
  solid : isBreak c = false ∧ isBlank c = false

theorem BeginsPlain.startsPlain (h : BeginsPlain c rest) :
    startsPlain false (c :: rest) = true := by
  have hgap : atGap (c :: rest) = false := by
    show (isBlank c || isBreak c) = false
    rw [h.solid.1, h.solid.2, Bool.or_self]
  simp only [Tokens.startsPlain, hgap]
  by_cases hc : c = '?' ∨ c = ':' ∨ c = '-'
  · have hrest := h.gap hc
    obtain rfl | rfl | rfl := hc
    · simp [hrest]
    · simp [hrest]
    · cases rest with
      | nil => rfl
      | cons d rest =>
          have hblank : isBlank d = false := (Bool.or_eq_false_iff.mp hrest).1
          simp [hblank]
  · have hindicator : isIndicator c = false := by
      have hall : "-?:,[]\x7b\x7d#&*!|>'\"%@`".toList.all
          (fun d => decide ((d = '?' ∨ d = ':' ∨ d = '-') ∨ d ∈ signs)) = true := by decide
      unfold isIndicator
      rw [← Bool.not_eq_true, List.contains_iff_mem]
      intro hmem
      obtain hsign | hsign := of_decide_eq_true (List.all_eq_true.mp hall c hmem)
      · exact hc hsign
      · exact h.sign hsign
    simp [hindicator]

theorem takeToken_plain (hflow : t.inFlow = false) (h : t.rest = c :: rest)
    (hedge : atDocumentEdge t.mark (c :: rest) = false) (hc : BeginsPlain c rest) :
    t.takeToken = t.takePlain := by
  have hne : ∀ d ∈ signs, c ≠ d := fun d hd heq => hc.sign (heq ▸ hd)
  have hgap : ∀ d, (d = '?' ∨ d = ':' ∨ d = '-') → (decide (c = d) && atGap rest) = false := by
    intro d hd
    cases hcd : decide (c = d) with
    | false => rfl
    | true =>
        obtain rfl := of_decide_eq_true hcd
        rw [hc.gap hd, Bool.and_false]
  unfold atDocumentEdge at hedge
  rw [Bool.and_or_distrib_left, Bool.or_eq_false_iff] at hedge
  unfold takeToken
  rw [h, hflow]
  simp only [hedge.1, hedge.2, hne '[' (by decide), hne '\x7b' (by decide),
    hne ']' (by decide), hne '\x7d' (by decide), hne ',' (by decide), hne '*' (by decide),
    hne '&' (by decide), hne '!' (by decide), hne '|' (by decide), hne '>' (by decide),
    hne '\'' (by decide), hne '"' (by decide), hgap '-' (.inr (.inr rfl)), hgap '?' (.inl rfl),
    hgap ':' (.inr (.inl rfl)), hc.startsPlain, beq_eq_false_iff_ne.mpr (hne '%' (by decide)),
    Bool.and_false, Bool.false_or, Bool.false_eq_true, if_false, if_true, decide_false,
    Bool.false_and]

/-! ## §2. Candidates. -/

/-- The place reached as a candidate, where a key may begin. -/
def candidateAt (allowed : Bool) (m : Mark) (count : Nat) (i : Int) : Option Candidate :=
  if allowed then some ⟨m, count, i == m.column⟩ else none

theorem Stands.dropCandidate (h : t.Stands next m (none :: cs) allowed ks bs) :
    t.dropCandidate = .ok t := by
  unfold Tokens.dropCandidate
  rw [h.candidates]

theorem Stands.keepCandidate {i : Int} (h : t.Stands next m [none] allowed ks (i :: outer)) :
    ∃ t' : Tokens, t.keepCandidate = .ok t'
      ∧ t'.Stands next m [candidateAt allowed m ks.length i] allowed ks (i :: outer) := by
  obtain ⟨hindent, -⟩ := List.cons.inj h.blocks
  cases allowed with
  | false =>
      refine ⟨t, ?_, h⟩
      unfold Tokens.keepCandidate
      rw [h.keyAllowed]
      rfl
  | true =>
      refine ⟨{ t with candidates := [candidateAt true m ks.length i] }, ?_,
        ⟨h.rest, h.mark, rfl, h.keyAllowed, h.kinds, h.count, h.blocks, h.going⟩⟩
      have hcolumn : t.column = m.column := by
        unfold Tokens.column
        rw [h.mark]
      unfold Tokens.keepCandidate
      simp only [h.keyAllowed, if_true, h.dropCandidate, h.inFlow, h.mark, h.count, hindent, hcolumn,
        h.candidates]
      rfl

theorem candidateAt_spec {c : Candidate} {count : Nat} {i : Int}
    (h : c ∈ candidateAt allowed m count i) (hi : i < m.column) :
    c.required = false ∧ c.mark = m := by
  unfold candidateAt at h
  cases allowed with
  | false => cases h
  | true =>
      obtain rfl := Option.some.inj h
      refine ⟨?_, rfl⟩
      show (i == (m.column : Int)) = false
      rw [beq_eq_false_iff_ne]
      omega

/-- Up to the end of a line a candidate is not required, and on no later line. -/
theorem candidateAt_line {m' : Mark} {count : Nat} {i : Int} (hi : i < m.column)
    (hline : m.line ≤ m'.line) :
    ∀ c ∈ candidateAt allowed m count i, c.required = false ∧ c.mark.line ≤ m'.line := by
  intro c hc
  obtain ⟨hrequired, hmark⟩ := candidateAt_spec hc hi
  rw [hmark]
  exact ⟨hrequired, hline⟩

/-- A step up to the end of a line leads to what comes on the next one. -/
theorem Goes.toLine {n : Tokens} {o : Option Candidate} (hgoing : t.done = false)
    (htake : t.takeNext = .ok n)
    (hn : n.Stands ('\n' :: (indentation k ++ next)) m [o] allowed ks bs)
    (ho : ∀ c ∈ o, c.required = false ∧ c.mark.line ≤ m.line)
    (hless : ('\n' :: (indentation k ++ next)).length < t.rest.length) (hnext : Follows next) :
    ∃ t' : Tokens, Goes t t' ∧ t'.Before next k true ks bs := by
  obtain ⟨t', hgoes, ht'⟩ := Goes.ofTake hgoing htake hn
    (fun o' ho' c hc _ => (ho c (List.mem_singleton.mp ho' ▸ hc)).1) hless
  exact ⟨t', hgoes, .ofLine ht' hnext fun c hc => ho c (Option.mem_filter_iff.mp hc).1⟩

/-! ## §3. Scalars. -/

/-- A token whose text is read to a place. -/
theorem Stands.addText (h : t.Stands next m cs allowed ks bs) (kind : TokenKind)
    (start finish m' : Mark) (next' : Text) (allowed' : Bool) :
    ({ (t.add kind start finish).goto m' next' with keyAllowed := allowed' } : Tokens).Stands
      next' m' cs allowed' (ks ++ [kind]) bs := by
  have hadd := h.add kind start finish
  exact ⟨rfl, rfl, hadd.candidates, rfl, hadd.kinds, hadd.count, hadd.blocks, hadd.going⟩

/-- A plain scalar is taken as far as it is read. -/
theorem Stands.takePlain {r : PlainScalar} {i : Int}
    (h : t.Stands rest m [none] allowed ks (i :: outer))
    (hread : readPlain ⟨m, false, i + 1⟩ m .none m rest = .ok r) :
    ∃ n : Tokens, t.takePlain = .ok n
      ∧ n.Stands r.rest r.mark [candidateAt allowed m ks.length i] r.broken
          (ks ++ [.scalar true r.value]) (i :: outer) := by
  obtain ⟨t₁, hkeep, ht₁⟩ := h.keepCandidate
  obtain ⟨hindent, -⟩ := List.cons.inj ht₁.blocks
  refine ⟨_, ?_, ht₁.addText (.scalar true r.value) m r.finish r.mark r.rest r.broken⟩
  unfold Tokens.takePlain
  rw [hkeep]
  show (do
    let r ← readPlain ⟨t₁.mark, t₁.inFlow, t₁.indent + 1⟩ t₁.mark .none t₁.mark t₁.rest
    return ({ (t₁.add (.scalar true r.value) t₁.mark r.finish).goto r.mark r.rest with
      keyAllowed := r.broken } : Tokens)) = _
  rw [ht₁.mark, ht₁.inFlow, hindent, ht₁.rest, hread]
  rfl

theorem beginsPlain_of_allowsPlain (h : allowsPlain (c :: s) = true) (rest : Text) :
    BeginsPlain c (s ++ '\n' :: rest) := by
  obtain ⟨hchars, -, hfirst, hbegins, -⟩ := allowsPlain_spec h
  obtain ⟨hsign, hgap⟩ := beginsAsSign_cons hbegins
  obtain ⟨hprintable, hbreak⟩ := hchars c List.mem_cons_self
  refine ⟨hsign, fun hc => (atGap_append_newline s rest).trans (hgap hc), hbreak, ?_⟩
  cases hblank : isBlank c with
  | false => rfl
  | true =>
      obtain rfl := eq_space_of_isBlank hprintable hblank
      exact absurd rfl hfirst

/-- A plain scalar with the end of its line. -/
theorem Before.plain
    (h : t.Before (s ++ '\n' :: (indentation k ++ next)) column allowed ks (i :: outer))
    (hs : s ≠ []) (hplain : allowsPlain s = true) (hi : i < column) (hk : k ≤ i)
    (hnext : Follows next) :
    ∃ t' : Tokens, Goes t t' ∧ t'.Before next k true (ks ++ [.scalar true s]) (i :: outer) := by
  obtain ⟨u, m, hcolumn, hu, htake⟩ := h.settled (by omega)
  obtain ⟨finish, hread⟩ := readPlain_text m m (m := m) hs hplain hnext.isNext (by omega)
    (by omega : (i : Int) + 1 ≤ m.column) (by omega : (k : Int) < i + 1)
  have htoken : u.takeToken = u.takePlain := by
    obtain ⟨c, s, rfl⟩ := List.exists_cons_of_ne_nil hs
    exact takeToken_plain hu.inFlow hu.rest (atDocumentEdge_of_column (by rw [hu.mark]; omega) _)
      (beginsPlain_of_allowsPlain hplain _)
  obtain ⟨n, htaken, hn⟩ := hu.takePlain hread
  have hless : next.length < t.rest.length := by
    have hlength := h.length
    simp only [List.length_append, List.length_cons] at hlength
    omega
  have hpassed : Passed (candidateAt allowed m ks.length i) ⟨m.line + 1, k⟩ := by
    intro c hc
    obtain ⟨hrequired, hmark⟩ := candidateAt_spec hc (by omega)
    refine ⟨hrequired, ?_⟩
    unfold Candidate.isOver
    rw [hmark, Bool.or_eq_true, decide_eq_true_eq]
    exact .inl (Nat.lt_succ_self _)
  obtain ⟨t', hgoes, ht'⟩ := Goes.ofTake h.going ((htake.trans htoken).trans htaken) hn
    (fun o ho => List.mem_singleton.mp ho ▸ hpassed.lasts) hless
  rw [hpassed.stillOpen_eq] at ht'
  exact ⟨t', hgoes, .ofStands ht' hnext⟩

/-- A scalar between quotes with the end of its line. -/
theorem Before.quoted {quote : Char} {w : Text} (hquote : quote = '\'' ∨ quote = '"')
    (h : t.Before (quote :: (w ++ '\n' :: (indentation k ++ next))) column allowed ks (i :: outer))
    (hread : ∀ start m : Mark, 0 < m.column → ∃ m' : Mark, m.line ≤ m'.line
      ∧ readQuoted start quote .word m (w ++ '\n' :: (indentation k ++ next))
        = .ok ⟨s, m', '\n' :: (indentation k ++ next)⟩)
    (hi : i < column) (hnext : Follows next) :
    ∃ t' : Tokens, Goes t t' ∧ t'.Before next k true (ks ++ [.scalar false s]) (i :: outer) := by
  obtain ⟨u, m, hcolumn, hu, htake⟩ := h.settled (by omega)
  obtain ⟨t₁, hkeep, ht₁⟩ := hu.keepCandidate
  obtain ⟨m', hline, hread⟩ := hread m m.next (Nat.succ_pos _)
  have hn := ht₁.addText (.scalar false s) m m' m' ('\n' :: (indentation k ++ next)) false
  have htaken : t.takeNext = .ok { (t₁.add (.scalar false s) m m').goto m'
      ('\n' :: (indentation k ++ next)) with keyAllowed := false } := by
    rw [htake, takeToken_quote hquote hu.rest]
    unfold takeQuoted
    rw [hkeep]
    show (do
      let r ← readQuoted t₁.mark quote .word t₁.mark.next (t₁.rest.drop 1)
      return ({ (t₁.add (.scalar false r.value) t₁.mark r.mark).goto r.mark r.rest with
        keyAllowed := false } : Tokens)) = _
    rw [ht₁.mark, ht₁.rest, List.drop_one, List.tail_cons, hread]
    rfl
  have hless : ('\n' :: (indentation k ++ next)).length < t.rest.length := by
    have hlength := h.length
    simp only [List.length_append, List.length_cons] at hlength ⊢
    omega
  exact Goes.toLine h.going htaken hn (candidateAt_line (by omega) hline) hless hnext

/-- A literal scalar with its lines. -/
theorem Before.literal (h : t.Before ('|' :: (literalHints s
      ++ '\n' :: (literalLines (i + 2) true s ++ (indentation k ++ next)))) column allowed ks
        (i :: outer))
    (hs : s ≠ []) (hliteral : allowsLiteral s = true) (hi : i < column) (hk : k ≤ i)
    (hnext : Follows next) :
    ∃ t' : Tokens, Goes t t' ∧ t'.Before next k true (ks ++ [.scalar false s]) (i :: outer) := by
  obtain ⟨u, m, hcolumn, hu, htake⟩ := h.settled (by omega)
  obtain ⟨hindent, -⟩ := List.cons.inj hu.blocks
  obtain ⟨m', hcolumn', -, hread⟩ := readBlock_literal m m.next hs hliteral hnext.isNext hk
  have hn := hu.addText (.scalar false s) m m' m' next true
  have htaken : t.takeNext = .ok { (u.add (.scalar false s) m m').goto m' next with
      keyAllowed := true } := by
    rw [htake, takeToken_bar hu.inFlow hu.rest]
    unfold takeBlockScalar
    rw [hu.dropCandidate]
    show (do
      let r ← readBlock u.mark false u.indent u.mark.next (u.rest.drop 1)
      return ({ (u.add (.scalar false r.value) u.mark r.mark).goto r.mark r.rest with
        keyAllowed := true } : Tokens)) = _
    rw [hu.mark, hindent, hu.rest, List.drop_one, List.tail_cons, hread]
    rfl
  have hless : next.length < t.rest.length := by
    have hlength := h.length
    simp only [List.length_append, List.length_cons] at hlength
    omega
  obtain ⟨t', hgoes, ht'⟩ := Goes.ofTake h.going htaken hn
    (fun o ho => List.mem_singleton.mp ho ▸ (passed_none m').lasts) hless
  refine ⟨t', hgoes, ?_⟩
  rw [← hcolumn']
  exact .ofStands ht' hnext

/-- What holds of a text that is written in a style. -/
inductive Styled (s : Text) : Style → Prop
  | plain (filled : s ≠ []) (means : meaning s = .text) (allowed : allowsPlain s = true) :
      Styled s .plain
  | singleQuoted (line : '\n' ∉ s) (allowed : allowsSingle s = true) : Styled s .singleQuoted
  | doubleQuoted : Styled s .doubleQuoted
  | literal (filled : s ≠ []) (allowed : allowsLiteral s = true) : Styled s .literal

theorem styled (s : Text) : Styled s (styleOf s) := by
  unfold styleOf
  by_cases hline : '\n' ∈ s
  · rw [if_pos hline]
    cases hliteral : allowsLiteral s with
    | true => exact .literal (List.ne_nil_of_mem hline) hliteral
    | false => exact .doubleQuoted
  · rw [if_neg hline]
    split
    · rename_i hplain
      rw [Bool.and_eq_true, Bool.and_eq_true, beq_iff_eq] at hplain
      refine .plain ?_ hplain.1.1 hplain.2
      rintro rfl
      exact absurd hplain.1.1 (by decide)
    · split
      · rename_i hsingle
        exact .singleQuoted hline hsingle
      · exact .doubleQuoted

/-- The plainest style that keeps a text a text. -/
example : ["a-b", "null", "1.5e3", "a\nb"].map (fun s => styleOf s.toList)
    = [.plain, .singleQuoted, .singleQuoted, .literal] := by decide

/-- **A text is taken as one scalar**, and plain only when it means a text. -/
theorem Before.text (h : t.Before (writeText (i + 2) s ++ (indentation k ++ next)) column allowed ks
      (i :: outer)) (hi : i < column) (hk : k ≤ i) (hnext : Follows next) :
    ∃ t' : Tokens, Goes t t'
      ∧ t'.Before next k true (ks ++ [.scalar (styleOf s == .plain) s]) (i :: outer) := by
  have hstyled := styled s
  unfold writeText at h
  generalize styleOf s = style at h hstyled ⊢
  cases hstyled with
  | plain hs _ hplain =>
      have hshape : s ++ ['\n'] ++ (indentation k ++ next)
          = s ++ '\n' :: (indentation k ++ next) := (List.append_cons s _ _).symm
      rw [hshape] at h
      exact h.plain hs hplain hi hk hnext
  | singleQuoted hline hsingle =>
      have hshape : '\'' :: singleQuotedFrom (i + 2) false s ++ ['\n'] ++ (indentation k ++ next)
          = '\'' :: (singleQuotedFrom (i + 2) false s ++ '\n' :: (indentation k ++ next)) :=
        (List.append_cons _ _ _).symm
      rw [hshape] at h
      exact h.quoted (.inl rfl) (fun start m hcolumn =>
        readQuoted_single (Nat.succ_pos _) hsingle hline hcolumn _) hi hnext
  | doubleQuoted =>
      have hshape : '"' :: s.flatMap doubleQuotedChar ++ ['"', '\n'] ++ (indentation k ++ next)
          = '"' :: ((s.flatMap doubleQuotedChar ++ ['"']) ++ '\n' :: (indentation k ++ next)) := by
        simp only [List.append_assoc, List.cons_append, List.nil_append]
      have hread : ∀ start m : Mark, 0 < m.column → ∃ m' : Mark, m.line ≤ m'.line
          ∧ readQuoted start '"' .word m
              ((s.flatMap doubleQuotedChar ++ ['"']) ++ '\n' :: (indentation k ++ next))
            = .ok ⟨s, m', '\n' :: (indentation k ++ next)⟩ := by
        intro start m hcolumn
        obtain ⟨m', hline, hread⟩ := readQuoted_double s hcolumn (indentation k ++ next)
        refine ⟨m', Nat.le_of_eq hline.symm, ?_⟩
        rw [List.append_assoc]
        exact hread
      exact (hshape ▸ h : t.Before _ column allowed ks (i :: outer)).quoted (.inr rfl) hread hi hnext
  | literal hs hliteral =>
      have hshape : '|' :: literalHints s ++ '\n' :: literalLines (i + 2) true s
            ++ (indentation k ++ next)
          = '|' :: (literalHints s
              ++ '\n' :: (literalLines (i + 2) true s ++ (indentation k ++ next))) := by
        simp only [List.append_assoc, List.cons_append]
      rw [hshape] at h
      exact h.literal hs hliteral hi hk hnext

/-! ## §4. Signs. -/

/-- A token of so many characters. -/
theorem Stands.addSign (h : t.Stands next m cs allowed ks bs) (kind : TokenKind) (length : Nat)
    (cs' : List (Option Candidate)) (allowed' : Bool) :
    ({ t.addSign kind length with candidates := cs', keyAllowed := allowed' } : Tokens).Stands
      (next.drop length) (m.forward length) cs' allowed' (ks ++ [kind]) bs := by
  have hadd := h.add kind t.mark (t.mark.forward length)
  refine ⟨?_, ?_, rfl, rfl, hadd.kinds, hadd.count, hadd.blocks, hadd.going⟩
  · show t.rest.drop length = _
    rw [h.rest]
  · show t.mark.forward length = _
    rw [h.mark]

/-- A candidate is not over right behind its place. -/
theorem candidateAt_fresh {count length : Nat} {i : Int} (hlength : length ≤ longestKey) :
    ∀ c ∈ candidateAt allowed m count i, c.isOver (m.forward length) = false := by
  intro c hc
  unfold candidateAt at hc
  cases allowed with
  | false => cases hc
  | true =>
      obtain rfl := Option.some.inj hc
      unfold Candidate.isOver
      rw [Bool.or_eq_false_iff, decide_eq_false_iff_not, decide_eq_false_iff_not]
      refine ⟨Nat.lt_irrefl m.line, ?_⟩
      show ¬m.column + longestKey < m.column + length
      omega

/-- Candidates that are not over do not end anything. -/
theorem lasts_of_fresh (h : ∀ o ∈ cs, ∀ c ∈ o, c.isOver m = false) : ∀ o ∈ cs, Lasts o m := by
  intro o ho c hc hover
  rw [h o ho c hc] at hover
  cases hover

/-- **An empty collection is taken as its two brackets.** -/
theorem Before.brackets {a b : Char} {first last : TokenKind} (hab : IsBrackets a b first last)
    (h : t.Before (a :: b :: '\n' :: (indentation k ++ next)) column allowed ks (i :: outer))
    (hi : i < column) (hnext : Follows next) :
    ∃ t' : Tokens, Goes t t' ∧ t'.Before next k true (ks ++ [first, last]) (i :: outer) := by
  obtain ⟨u, m, hcolumn, hu, htake⟩ := h.settled (by omega)
  obtain ⟨t₁, hkeep, ht₁⟩ := hu.keepCandidate
  have hb : Follows (b :: '\n' :: (indentation k ++ next)) := by
    cases hab with
    | sequence => exact follows_cons (by decide) _
    | mapping => exact follows_cons (by decide) _
  have hlength := h.length
  simp only [List.length_cons, List.length_append] at hlength
  -- the opening bracket; the candidate stays open behind it
  have hopen : t.takeNext = .ok { t₁.addSign first 1 with
      candidates := none :: t₁.candidates, keyAllowed := true } := by
    rw [htake, takeToken_opening hab hu.rest]
    unfold takeOpening
    rw [hkeep]
    rfl
  rw [ht₁.candidates] at hopen
  have hfresh : ∀ o ∈ [none, candidateAt allowed m ks.length i], ∀ c ∈ o,
      c.isOver (m.forward 1) = false := by
    intro o ho c hc
    rw [List.mem_cons, List.mem_singleton] at ho
    obtain rfl | rfl := ho
    · cases hc
    · exact candidateAt_fresh (by decide) c hc
  obtain ⟨t₂, hgoes₁, ht₂⟩ := Goes.ofTake h.going hopen (ht₁.addSign first 1 _ true)
    (lasts_of_fresh hfresh) (by
      show (b :: '\n' :: (indentation k ++ next)).length < _
      simp only [List.length_cons, List.length_append]
      omega)
  rw [stillOpen_eq hfresh] at ht₂
  -- the closing bracket
  obtain ⟨u₂, hu₂, htake₂⟩ := ht₂.takeNext (skipSpace_next hb true true (m.forward 1))
    (lasts_of_fresh hfresh)
  rw [stillOpen_eq hfresh] at hu₂
  have hflow : u₂.inFlow = true := by
    unfold Tokens.inFlow
    rw [hu₂.candidates]
    rfl
  have hclose : t₂.takeNext = .ok { u₂.addSign last 1 with
      candidates := [candidateAt allowed m ks.length i], keyAllowed := false } := by
    rw [htake₂]
    unfold Tokens.closeBlocks
    rw [if_pos hflow, takeToken_closing hab hu₂.rest]
    unfold takeClosing
    rw [hu₂.dropCandidate]
    show Except.ok ({ u₂.addSign last 1 with
      candidates := if u₂.inFlow then u₂.candidates.drop 1 else u₂.candidates,
      keyAllowed := false } : Tokens) = _
    rw [if_pos hflow, hu₂.candidates]
    rfl
  obtain ⟨t', hgoes₂, ht'⟩ := Goes.toLine ht₂.going hclose (hu₂.addSign last 1 _ false)
    (candidateAt_line (by omega) (Nat.le_refl _)) (by
      rw [ht₂.rest]
      exact Nat.lt_succ_self _) hnext
  rw [List.append_assoc] at ht'
  exact ⟨t', hgoes₁.trans hgoes₂, ht'⟩

/-! ## §5. Blocks. -/

/-- A token that is put in before others. -/
theorem Stands.insert (h : t.Stands next m cs allowed (ks ++ ks') bs) (kind : TokenKind) (m' : Mark) :
    (t.insert ks.length kind m').Stands next m cs allowed (ks ++ kind :: ks') bs := by
  have hbehind : t.count - ks.length = ks'.reverse.length := by
    rw [h.count, List.length_append, List.length_reverse]
    omega
  have hmade : t.made.map Token.kind = ks'.reverse ++ ks.reverse := by
    rw [← List.reverse_append, ← h.kinds]
    unfold Tokens.kinds
    rw [← List.map_reverse, List.reverse_reverse]
  refine ⟨h.rest, h.mark, h.candidates, h.keyAllowed, ?_, ?_, h.blocks, h.going⟩
  · show ((t.made.take (t.count - ks.length) ++ ⟨kind, m', m'⟩
      :: t.made.drop (t.count - ks.length)).reverse).map Token.kind = _
    rw [List.map_reverse, List.map_append, List.map_cons, List.map_take, List.map_drop, hmade,
      hbehind, List.take_left, List.drop_left, List.reverse_append, List.reverse_cons,
      List.reverse_reverse, List.reverse_reverse, List.append_assoc, List.singleton_append]
  · show t.count + 1 = _
    rw [h.count, List.length_append, List.length_append, List.length_cons, Nat.add_assoc]

/-- What a sign at a column does to the blocks, given the kind of token that it may open a block
with: nothing in a block of that column, and deeper than the block around it opens one. -/
inductive Opens (kind : TokenKind) (column : Nat) : List Int → List TokenKind → List Int → Prop
  | already (outer : List Int) : Opens kind column (column :: outer) [] (column :: outer)
  | opens {i : Int} (outer : List Int) (deeper : i < column) :
      Opens kind column (i :: outer) [kind] (column :: i :: outer)

theorem Opens.blocks {kind : TokenKind} {opened : List TokenKind} {bs' : List Int}
    (h : Opens kind column bs opened bs') :
    ∃ (i : Int) (outer : List Int), bs = i :: outer ∧ i ≤ column := by
  cases h with
  | already outer => exact ⟨column, outer, rfl, Int.le_refl _⟩
  | opens outer deeper => exact ⟨_, outer, rfl, Int.le_of_lt deeper⟩

theorem Stands.openBlock {kind : TokenKind} {opened : List TokenKind} {bs' : List Int} {m' : Mark}
    {o : Option Candidate} (h : t.Stands next m [o] allowed (ks ++ ks') bs)
    (hopens : Opens kind m'.column bs opened bs') :
    (t.openBlock ks.length kind m').Stands next m [o] allowed (ks ++ opened ++ ks') bs' := by
  unfold Tokens.openBlock
  rw [h.inFlow]
  cases hopens with
  | already outer =>
      have hindent : t.indent = m'.column := (List.cons.inj h.blocks).1
      rw [if_neg (by rw [hindent]; simp), List.append_nil]
      exact h
  | @opens i outer deeper =>
      obtain ⟨hindent, houter⟩ := List.cons.inj h.blocks
      rw [if_pos (by rw [hindent]; simpa using deeper), hindent, houter, List.append_assoc]
      have hpushed : ({ t with indent := m'.column, outer := i :: outer } : Tokens).Stands next m [o]
          allowed (ks ++ ks') (m'.column :: i :: outer) :=
        ⟨h.rest, h.mark, h.candidates, h.keyAllowed, h.kinds, h.count, rfl, h.going⟩
      exact hpushed.insert kind m'

/-- **A dash is taken**, and opens a block where there is none. -/
theorem Before.dash {opened : List TokenKind} {bs' : List Int}
    (h : t.Before ('-' :: ' ' :: next) column true ks bs)
    (hopens : Opens .blockSequenceStart column bs opened bs') (hnext : Follows next) :
    ∃ t' : Tokens, Goes t t'
      ∧ t'.Before next (column + 2) true (ks ++ opened ++ [.blockEntry]) bs' := by
  obtain ⟨i, outer, rfl, hi⟩ := hopens.blocks
  obtain ⟨u, m, hcolumn, hu, htake⟩ := h.settled hi
  subst hcolumn
  rw [← List.append_nil ks] at hu
  have hblock : (u.openBlock u.count .blockSequenceStart u.mark).Stands ('-' :: ' ' :: next) m [none]
      true (ks ++ opened ++ []) bs' := by
    rw [hu.count, hu.mark, List.append_nil]
    exact hu.openBlock hopens
  rw [List.append_nil] at hblock
  have htaken : t.takeNext = .ok { (u.openBlock u.count .blockSequenceStart u.mark).addSign
      .blockEntry 1 with candidates := [none], keyAllowed := true } := by
    rw [htake, takeToken_dash hu.rest]
    unfold takeDash
    rw [hu.inFlow, hu.keyAllowed, hblock.dropCandidate, ← hblock.candidates]
    rfl
  obtain ⟨t', hgoes, ht'⟩ := Goes.ofTake h.going htaken (hblock.addSign .blockEntry 1 [none] true)
    (fun o ho => List.mem_singleton.mp ho ▸ (passed_none _).lasts)
    (Nat.lt_of_lt_of_le (Nat.lt_succ_self _) h.length)
  exact ⟨t', hgoes, .ofSpace ht' hnext⟩

/-- **A key is taken with its colon**, and opens a block where there is none. -/
theorem Before.key {opened : List TokenKind} {bs' : List Int}
    (h : t.Before (s ++ ':' :: rest) column true ks bs) (hs : IsWord s)
    (hlength : s.length ≤ longestKey) (hrest : atGap rest = true)
    (hopens : Opens .blockMappingStart column bs opened bs') :
    ∃ (t' : Tokens) (m' : Mark), Goes t t' ∧ column < m'.column
      ∧ t'.Stands rest m' [none] false (ks ++ opened ++ [.key, .scalar true s, .value]) bs' := by
  obtain ⟨i, outer, rfl, hi⟩ := hopens.blocks
  obtain ⟨u, m, hcolumn, hu, htake⟩ := h.settled hi
  subst hcolumn
  obtain ⟨finish, hread⟩ := readPlain_word m m m (i + 1) hs hrest
  -- the word, whose candidate stays open
  have hword : u.takeToken = u.takePlain := by
    obtain ⟨c, s, rfl⟩ := List.exists_cons_of_ne_nil hs.1
    have hc := hs.2 c List.mem_cons_self
    refine takeToken_plain hu.inFlow hu.rest (atDocumentEdge_of_isAlpha hc _) ⟨?_, ?_, ?_⟩
    · exact not_mem_signs_of_isAlpha hc
    · rintro (rfl | rfl | rfl)
      · cases hc
      · cases hc
      · cases hc
    · exact ⟨not_isBreak_of_isAlpha hc, not_isBlank_of_isAlpha hc⟩
  obtain ⟨n, htaken₁, hn₁⟩ := hu.takePlain hread
  have hfresh : ∀ o ∈ [candidateAt true m ks.length i], ∀ c ∈ o,
      c.isOver (m.forward s.length) = false := by
    intro o ho
    obtain rfl := List.mem_singleton.mp ho
    exact candidateAt_fresh hlength
  obtain ⟨t₂, hgoes₁, ht₂⟩ := Goes.ofTake h.going ((htake.trans hword).trans htaken₁) hn₁
    (lasts_of_fresh hfresh) (by
    refine Nat.lt_of_lt_of_le ?_ h.length
    rw [List.length_append]
    exact Nat.lt_add_of_pos_left (List.length_pos_iff.mpr hs.1))
  rw [stillOpen_eq hfresh] at ht₂
  -- the colon: the candidate was a key
  have hcolon : Follows (':' :: rest) := follows_cons (by decide) rest
  obtain ⟨u₂, hu₂, htake₂⟩ := ht₂.takeNext (skipSpace_next hcolon false false _)
    (lasts_of_fresh hfresh)
  rw [stillOpen_eq hfresh] at hu₂
  have hdeep : i ≤ ((m.forward s.length).column : Nat) := by
    show i ≤ ((m.column + s.length : Nat) : Int)
    omega
  have hblock := (hu₂.insert .key m).openBlock hopens
  have htaken₂ : t₂.takeNext = .ok { ((u₂.insert ks.length .key m).openBlock ks.length
      .blockMappingStart m).addSign .value 1 with candidates := [none], keyAllowed := false } := by
    rw [htake₂, hu₂.closeBlocks hdeep, takeToken_colon hu₂.rest hrest]
    unfold takeValue
    rw [hu₂.candidates]
    rfl
  obtain ⟨t', hgoes₂, ht'⟩ := Goes.ofTake ht₂.going htaken₂ (hblock.addSign .value 1 [none] false)
    (fun o ho => List.mem_singleton.mp ho ▸ (passed_none _).lasts) (by
      rw [ht₂.rest]
      exact Nat.lt_succ_self _)
  refine ⟨t', _, hgoes₁.trans hgoes₂, ?_, List.append_assoc _ _ _ ▸ ht'⟩
  show m.column < m.column + s.length + 1
  omega

end Tokens

end Crosswalk.Yaml
