/-
  Crosswalk.Proofs.Yaml.Scanner
  ──────────────────────────────────────
  **ONE TOKEN AFTER THE OTHER.**

  Outside brackets the state of the scanner is known from what is ahead, the
  place where a key may have begun, the kinds of the tokens so far and the
  columns of the open blocks (`Tokens.Stands`).  Before a token, white space
  is passed over and blocks that are too deep are closed (`Tokens.Before`).

    • `takeAll_of_goes`: steps add up to a whole run,
    • `Before.close`: a block that is too deep,
    • `Before.ofLine`: the beginning of a line,
    • `takeAll_of_end`: the end of the text.
-/
import Crosswalk.Proofs.Yaml.Literal
import Crosswalk.Yaml.Token

namespace Crosswalk.Yaml

variable {c : Char} {next rest : Text} {t u n : Tokens} {m : Mark} {o : Option Candidate}
  {cs : List (Option Candidate)} {allowed : Bool} {ks : List TokenKind} {bs outer : List Int}
  {i : Int} {k : Nat}

namespace Tokens

/-! ## §1. States. -/

/-- The kinds of the tokens so far. -/
def kinds (t : Tokens) : List TokenKind :=
  t.made.reverse.map Token.kind

/-- The columns of the open blocks, the deepest one first; minus one is the last one. -/
def blocks (t : Tokens) : List Int :=
  t.indent :: t.outer

/-- The scanner stands at a mark before a text. -/
structure Stands (t : Tokens) (next : Text) (m : Mark) (cs : List (Option Candidate)) (allowed : Bool)
    (ks : List TokenKind) (bs : List Int) : Prop where
  rest : t.rest = next
  mark : t.mark = m
  candidates : t.candidates = cs
  keyAllowed : t.keyAllowed = allowed
  kinds : t.kinds = ks
  count : t.count = ks.length
  blocks : t.blocks = bs
  going : t.done = false

theorem kinds_add (t : Tokens) (kind : TokenKind) (start finish : Mark) :
    (t.add kind start finish).kinds = t.kinds ++ [kind] := by
  unfold kinds add
  rw [List.reverse_cons, List.map_append]
  rfl

/-- A token more. -/
theorem Stands.add (h : t.Stands next m cs allowed ks bs) (kind : TokenKind) (start finish : Mark) :
    (t.add kind start finish).Stands next m cs allowed (ks ++ [kind]) bs where
  rest := h.rest
  mark := h.mark
  candidates := h.candidates
  keyAllowed := h.keyAllowed
  kinds := by rw [kinds_add, h.kinds]
  count := by
    show t.count + 1 = _
    rw [h.count, List.length_append]
    rfl
  blocks := h.blocks
  going := h.going

/-- Outside brackets there is one candidate. -/
theorem Stands.inFlow (h : t.Stands next m [o] allowed ks bs) : t.inFlow = false := by
  unfold Tokens.inFlow
  rw [h.candidates]
  rfl

/-! ## §2. Candidates. -/

/-- A candidate that is over at a mark was not required. -/
def Lasts (o : Option Candidate) (m : Mark) : Prop :=
  ∀ c ∈ o, c.isOver m = true → c.required = false

/-- A candidate is over at a mark, and was not required. -/
def Passed (o : Option Candidate) (m : Mark) : Prop :=
  ∀ c ∈ o, c.required = false ∧ c.isOver m = true

theorem Passed.lasts (h : Passed o m) : Lasts o m :=
  fun c hc _ => (h c hc).1

theorem passed_none (m : Mark) : Passed none m := fun c hc => by cases hc

/-- The candidates that are not over at a mark. -/
def stillOpen (m : Mark) (cs : List (Option Candidate)) : List (Option Candidate) :=
  cs.map (·.filter (fun c => !c.isOver m))

/-- A candidate that is over is gone. -/
theorem Passed.stillOpen_eq (h : Passed o m) : stillOpen m [o] = [none] := by
  cases o with
  | none => rfl
  | some c =>
      have hover := (h c rfl).2
      show [Option.filter (fun c => !c.isOver m) (some c)] = [none]
      rw [Option.filter_some, hover]
      rfl

/-- Candidates that are not over stay. -/
theorem stillOpen_eq (h : ∀ o ∈ cs, ∀ c ∈ o, c.isOver m = false) : stillOpen m cs = cs := by
  unfold stillOpen
  rw [List.map_congr_left (g := id), List.map_id]
  intro o ho
  cases o with
  | none => rfl
  | some c =>
      show Option.filter (fun c => !c.isOver m) (some c) = some c
      rw [Option.filter_some, h _ ho c rfl]
      rfl

theorem Stands.dropOver (h : t.Stands next m cs allowed ks bs) (ho : ∀ o ∈ cs, Lasts o m) :
    t.dropOver = .ok { t with candidates := stillOpen m cs } := by
  have hnone : cs.reverse.findSome? (fun o => o.filter fun c => c.isOver m && c.required) = none := by
    rw [List.findSome?_eq_none_iff]
    intro o hmem
    cases o with
    | none => rfl
    | some c =>
        rw [Option.filter_some_eq_none]
        intro hover
        rw [Bool.and_eq_true] at hover
        rw [ho _ (List.mem_reverse.mp hmem) c rfl hover.1] at hover
        cases hover.2
  unfold Tokens.dropOver
  rw [h.candidates, h.mark, hnone]
  rfl

/-- Candidates that are over are gone. -/
theorem Stands.release (h : t.Stands next m cs allowed ks bs) (ho : ∀ o ∈ cs, Lasts o m) :
    ∃ t' : Tokens, t.release = .ok t' ∧ t'.Stands next m (stillOpen m cs) allowed ks bs := by
  unfold Tokens.release
  rw [h.dropOver ho]
  exact ⟨_, rfl, h.rest, h.mark, rfl, h.keyAllowed, h.kinds, h.count, h.blocks, h.going⟩

/-! ## §3. White space. -/

end Tokens

/-- A character that is no white space and starts no comment. -/
def IsSolid (c : Char) : Prop :=
  isBreak c = false ∧ isBlank c = false ∧ c ≠ '#' ∧ c.toNat ≠ 0xFEFF

instance (c : Char) : Decidable (IsSolid c) :=
  inferInstanceAs (Decidable (isBreak c = false ∧ isBlank c = false ∧ c ≠ '#' ∧ c.toNat ≠ 0xFEFF))

/-- What comes next is solid, or nothing comes. -/
def Follows (next : Text) : Prop :=
  ∀ c ∈ next.head?, IsSolid c

theorem follows_cons (h : IsSolid c) (rest : Text) : Follows (c :: rest) := by
  intro d hd
  obtain rfl := Option.some.inj hd
  exact h

theorem Follows.isNext (h : Follows next) : IsNext next :=
  fun c hc => ⟨(h c hc).1, (h c hc).2.1⟩

theorem isSolid_of_isAlpha (h : c.isAlpha = true) : IsSolid c := by
  have hbounds := toNat_of_isAlpha h
  exact ⟨not_isBreak_of_isAlpha h, not_isBlank_of_isAlpha h, ne_of_isAlpha h rfl, by omega⟩

namespace Tokens

theorem skipSpace_next (h : Follows next) (flow allowed : Bool) (m : Mark) :
    skipSpace flow allowed false m next = (allowed, m, next) := by
  cases next with
  | nil => rfl
  | cons c rest =>
      obtain ⟨hbreak, hblank, hsign, hmark⟩ := h c rfl
      rw [isBlank_eq_false] at hblank
      rw [skipSpace]
      simp only [hbreak, decide_eq_false hblank.1, decide_eq_false hblank.2, decide_eq_false hsign,
        decide_eq_false hmark, Bool.false_and, Bool.or_self, Bool.false_eq_true, if_false]

theorem skipSpace_indentation (h : Follows next) (flow allowed : Bool) : ∀ (k : Nat) (m : Mark),
    skipSpace flow allowed false m (indentation k ++ next) = (allowed, m.forward k, next)
  | 0, m => skipSpace_next h flow allowed m
  | k + 1, m => by
      rw [indentation_succ, List.cons_append, skipSpace]
      show skipSpace flow allowed false m.next (indentation k ++ next) = _
      rw [skipSpace_indentation h flow allowed k m.next, Mark.next_forward]

/-- The beginning of a line: a key may begin there. -/
theorem skipSpace_line (h : Follows next) (allowed : Bool) (k : Nat) (m : Mark) :
    skipSpace false allowed false m ('\n' :: (indentation k ++ next))
      = (true, ⟨m.line + 1, k⟩, next) := by
  rw [skipSpace, if_pos isBreak_newline]
  show skipSpace false (allowed || true) false m.newLine _ = _
  rw [Bool.or_true, skipSpace_indentation h]
  show (true, (⟨m.line + 1, 0 + k⟩ : Mark), next) = _
  rw [Nat.zero_add]

/-! ## §4. Before a token. -/

/-- What `takeNext` does first: it passes over white space and forgets the candidates that are
over. -/
theorem Stands.takeNext {s : Text} {m' : Mark} {allowed' : Bool} (h : t.Stands s m cs allowed ks bs)
    (hskip : skipSpace (decide (1 < cs.length)) allowed false m s = (allowed', m', next))
    (ho : ∀ o ∈ cs, Lasts o m') :
    ∃ u : Tokens, u.Stands next m' (stillOpen m' cs) allowed' ks bs
      ∧ t.takeNext = (u.closeBlocks m'.column).takeToken := by
  have hthere : ({ t.goto m' next with keyAllowed := allowed' } : Tokens).Stands next m' cs allowed'
      ks bs := ⟨rfl, rfl, h.candidates, rfl, h.kinds, h.count, h.blocks, h.going⟩
  refine ⟨{ t.goto m' next with keyAllowed := allowed', candidates := stillOpen m' cs },
    ⟨rfl, rfl, rfl, rfl, h.kinds, h.count, h.blocks, h.going⟩, ?_⟩
  have hflow : t.inFlow = decide (1 < cs.length) := by
    unfold Tokens.inFlow
    rw [h.candidates]
  unfold Tokens.takeNext
  rw [hflow, h.keyAllowed, h.mark, h.rest, hskip]
  show (do
    let t ← ({ t.goto m' next with keyAllowed := allowed' } : Tokens).dropOver
    takeToken (t.closeBlocks t.column)) = _
  rw [hthere.dropOver ho]
  rfl

/-- A text comes next at a column, outside brackets: there is only white space before it, and blocks
that are too deep are still to be closed. -/
structure Before (t : Tokens) (next : Text) (k : Nat) (allowed : Bool) (ks : List TokenKind)
    (bs : List Int) : Prop where
  going : t.done = false
  length : next.length ≤ t.rest.length
  ahead : ∃ (u : Tokens) (m : Mark), m.column = k ∧ u.Stands next m [none] allowed ks bs
    ∧ t.takeNext = (u.closeBlocks k).takeToken

theorem Stands.before {s : Text} {m' : Mark} {allowed' : Bool} (h : t.Stands s m [o] allowed ks bs)
    (hskip : skipSpace false allowed false m s = (allowed', m', next)) (ho : Passed o m')
    (hlength : next.length ≤ s.length) : t.Before next m'.column allowed' ks bs where
  going := h.going
  length := by
    rw [h.rest]
    exact hlength
  ahead := by
    obtain ⟨u, hu, htake⟩ := h.takeNext hskip (fun o' ho' => List.mem_singleton.mp ho' ▸ ho.lasts)
    rw [ho.stillOpen_eq] at hu
    exact ⟨u, m', rfl, hu, htake⟩

/-- There is nothing before the text. -/
theorem Before.ofStands (h : t.Stands next m [none] allowed ks bs) (hnext : Follows next) :
    t.Before next m.column allowed ks bs :=
  h.before (skipSpace_next hnext false allowed m) (passed_none m) (Nat.le_refl _)

/-- There is a space before the text. -/
theorem Before.ofSpace (h : t.Stands (' ' :: next) m [none] allowed ks bs) (hnext : Follows next) :
    t.Before next (m.column + 1) allowed ks bs :=
  h.before (skipSpace_indentation hnext false allowed 1 m) (passed_none _) (Nat.le_succ _)

/-- The line before the text ends. -/
theorem Before.ofLine (h : t.Stands ('\n' :: (indentation k ++ next)) m [o] allowed ks bs)
    (hnext : Follows next) (ho : ∀ c ∈ o, c.required = false ∧ c.mark.line ≤ m.line) :
    t.Before next k true ks bs := by
  have hpassed : Passed o ⟨m.line + 1, k⟩ := by
    intro c hc
    obtain ⟨hrequired, hline⟩ := ho c hc
    refine ⟨hrequired, ?_⟩
    unfold Candidate.isOver
    rw [Bool.or_eq_true, decide_eq_true_eq]
    exact .inl (Nat.lt_succ_of_le hline)
  have hlength : next.length ≤ ('\n' :: (indentation k ++ next)).length := by
    rw [List.length_cons, List.length_append]
    omega
  exact h.before (skipSpace_line hnext allowed k m) hpassed hlength

/-- No block is too deep. -/
theorem Stands.closeBlocks (h : u.Stands next m [o] allowed ks (i :: outer)) (hi : i ≤ k) :
    u.closeBlocks k = u := by
  have hindent : u.indent = i := (List.cons.inj h.blocks).1
  unfold Tokens.closeBlocks
  rw [h.inFlow, if_neg Bool.false_ne_true]
  cases u.outer with
  | nil => rw [closeTo]
  | cons j rest => rw [closeTo, if_neg (by rw [hindent]; omega)]

theorem Before.settled (h : t.Before next k allowed ks (i :: outer)) (hi : i ≤ k) :
    ∃ (u : Tokens) (m : Mark), m.column = k ∧ u.Stands next m [none] allowed ks (i :: outer)
      ∧ t.takeNext = u.takeToken := by
  obtain ⟨u, m, hcolumn, hstands, htake⟩ := h.ahead
  rw [hstands.closeBlocks hi] at htake
  exact ⟨u, m, hcolumn, hstands, htake⟩

/-- A block that is too deep is closed. -/
theorem Before.close (h : t.Before next k allowed ks (i :: outer)) (hi : k < i) (ho : outer ≠ []) :
    t.Before next k allowed (ks ++ [.blockEnd]) outer := by
  obtain ⟨u, m, hcolumn, hstands, htake⟩ := h.ahead
  obtain ⟨hindent, houter⟩ := List.cons.inj hstands.blocks
  obtain ⟨j, others, rfl⟩ := List.exists_cons_of_ne_nil ho
  have hadd := hstands.add .blockEnd u.mark u.mark
  refine ⟨h.going, h.length, { u.add .blockEnd u.mark u.mark with indent := j, outer := others }, m,
    hcolumn, ⟨hadd.rest, hadd.mark, hadd.candidates, hadd.keyAllowed, hadd.kinds, hadd.count, rfl,
      hadd.going⟩, ?_⟩
  rw [htake]
  unfold Tokens.closeBlocks
  rw [hstands.inFlow, if_neg Bool.false_ne_true, houter, closeTo, if_pos (by rw [hindent]; exact hi)]
  show _ = (if (u.add .blockEnd u.mark u.mark).inFlow = true then _ else _ : Tokens).takeToken
  rw [hadd.inFlow, if_neg Bool.false_ne_true]

/-! ## §5. Steps. -/

/-- Some steps, each of which takes characters. -/
inductive Goes : Tokens → Tokens → Prop
  | refl (t : Tokens) : Goes t t
  | step {t n t' u : Tokens} (going : t.done = false) (next : t.takeNext = .ok n)
      (release : n.release = .ok t') (less : t'.rest.length < t.rest.length) (rest : Goes t' u) :
      Goes t u

theorem Goes.trans {v : Tokens} (h : Goes t u) (h' : Goes u v) : Goes t v := by
  induction h with
  | refl t => exact h'
  | step going next release less rest ih => exact .step going next release less (ih h')

/-- **Steps add up to a run**: with enough fuel, taking all tokens goes through them. -/
theorem takeAll_of_goes (h : Goes t u) {fuel : Nat} (hfuel : t.rest.length + 2 ≤ fuel) :
    ∃ fuel' : Nat, u.rest.length + 2 ≤ fuel' ∧ takeAll fuel t = takeAll fuel' u := by
  induction h generalizing fuel with
  | refl t => exact ⟨fuel, hfuel, rfl⟩
  | step going next release less rest ih =>
      obtain ⟨fuel, rfl⟩ : ∃ f, fuel = f + 1 := ⟨fuel - 1, by omega⟩
      obtain ⟨fuel', hfuel', hrun⟩ := @ih fuel (by omega)
      refine ⟨fuel', hfuel', ?_⟩
      rw [takeAll, going, next]
      simp only [Bool.false_eq_true, if_false, release]
      exact hrun

/-- One step. -/
theorem Goes.ofTake (hgoing : t.done = false) (htake : t.takeNext = .ok n)
    (hn : n.Stands next m cs allowed ks bs) (ho : ∀ o ∈ cs, Lasts o m)
    (hless : next.length < t.rest.length) :
    ∃ t' : Tokens, Goes t t' ∧ t'.Stands next m (stillOpen m cs) allowed ks bs := by
  obtain ⟨t', hrelease, ht'⟩ := hn.release ho
  refine ⟨t', .step hgoing htake hrelease ?_ (.refl t'), ht'⟩
  rw [ht'.rest]
  exact hless

/-! ## §6. Beginning and end. -/

theorem stands_initial (s : Text) :
    (Tokens.initial s).Stands s .zero [none] true [] [-1] :=
  ⟨rfl, rfl, rfl, rfl, rfl, rfl, rfl, rfl⟩

/-- At the end of the text the outermost block is closed. -/
theorem takeAll_of_end (h : t.Before [] 0 allowed ks [0, -1]) {fuel : Nat} (hfuel : 2 ≤ fuel) :
    ∃ made : List Token, takeAll fuel t = (made, none)
      ∧ made.map Token.kind = ks ++ [.blockEnd, .streamEnd] := by
  obtain ⟨u, m, hcolumn, hu, htake⟩ := h.settled (Int.le_refl 0)
  obtain ⟨fuel, rfl⟩ : ∃ f, fuel = f + 2 := ⟨fuel - 2, by omega⟩
  obtain ⟨rest, mark, made, count, candidates, keyAllowed, indent, outer, usable, done⟩ := u
  obtain rfl : rest = [] := hu.rest
  obtain rfl : mark = m := hu.mark
  obtain rfl : candidates = [none] := hu.candidates
  obtain ⟨hindent, houter⟩ : indent = 0 ∧ outer = [-1] := List.cons.inj hu.blocks
  subst hindent houter
  have hfinish : takeToken ⟨[], mark, made, count, [none], keyAllowed, 0, [-1], usable, done⟩
      = .ok ⟨[], mark, ⟨.streamEnd, mark, mark⟩ :: ⟨.blockEnd, mark, mark⟩ :: made, count + 2, [none],
        false, -1, [], usable, true⟩ := by
    unfold takeToken finish
    simp only [if_pos hcolumn]
    rfl
  refine ⟨made.reverse ++ [⟨.blockEnd, mark, mark⟩, ⟨.streamEnd, mark, mark⟩], ?_, ?_⟩
  · rw [takeAll, h.going, htake, hfinish]
    show (takeAll (fuel + 1) ⟨[], mark, ⟨.streamEnd, mark, mark⟩ :: ⟨.blockEnd, mark, mark⟩ :: made,
      count + 2, [none], false, -1, [], count + 2, true⟩) = _
    rw [takeAll, if_pos rfl, List.reverse_cons, List.reverse_cons, List.append_assoc]
    rfl
  · have hkinds : made.reverse.map Token.kind = ks := hu.kinds
    rw [List.map_append, hkinds]
    rfl

end Tokens

end Crosswalk.Yaml
