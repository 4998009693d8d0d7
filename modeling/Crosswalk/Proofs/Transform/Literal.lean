/-
  Crosswalk.Proofs.Transform.Literal
  ──────────────────────────────────────
  **QUOTED LITERALS.**

  For the scan that cuts arguments a literal is a text whose first character
  opens a quote that its last one closes, and no other one before it.  What
  takes the quotes off looks at these two characters only:

    • `unquote?_eq_some`: the texts whose quotes are taken off,
    • `isLiteral_iff`: the literals, by their characters,
    • `IsLiteral.splitArguments_eq`: a literal is one argument,
    • `argument_at_rest`: how the scan comes to an argument,
    • `unquote?_argument`: exactly where both agree.
-/
import Mathlib.Data.List.Induction
import Crosswalk.Proofs.Text.Trim
import Crosswalk.Proofs.Transform.Pieces

namespace Crosswalk.Transform

variable {m : Mark} {q c : Char} {a s body front back : Text}

/-! ## §1. Texts between quotes. -/

/-- **The texts whose quotes are taken off, and what is left of them.** -/
theorem unquote?_eq_some : unquote? a = some s ↔ ∃ q, isQuote q = true ∧ a = q :: s ++ [q] := by
  cases a with
  | nil => simp [unquote?]
  | cons q rest =>
      rcases List.eq_nil_or_concat rest with rfl | ⟨body, c, rfl⟩
      · simp [unquote?]
      · rw [List.concat_eq_append, unquote?, List.getLast?_concat, List.dropLast_concat]
        constructor
        · intro h
          obtain ⟨hboth, hbody⟩ := Option.ite_none_right_eq_some.mp h
          obtain ⟨hquote, rfl⟩ : isQuote q = true ∧ c = q := by simpa using hboth
          obtain rfl : body = s := Option.some.inj hbody
          exact ⟨c, hquote, rfl⟩
        · rintro ⟨p, hquote, hs⟩
          obtain ⟨rfl, htail⟩ := List.cons.inj hs
          obtain ⟨rfl, hlast⟩ := List.append_inj' htail rfl
          obtain rfl : c = q := List.head_eq_of_cons_eq hlast
          simp [hquote]

theorem unquote?_quoted (hq : isQuote q = true) (body : Text) :
    unquote? (q :: body ++ [q]) = some body :=
  unquote?_eq_some.mpr ⟨q, hq, rfl⟩

/-! ## §2. Literals of the scan. -/

/-- The first character of the text opens a quote, which is open at every place up to the last
character, and closed behind it. -/
structure IsLiteral (q : Char) (body a : Text) : Prop where
  quoted : a = q :: body ++ [q]
  quote : isQuote q = true
  stays : ∀ front, front <+: body → (Mark.initial.over (q :: front)).quote = some q
  closes : (Mark.initial.over a).quote = none

theorem ne_backslash_of_isQuote (hq : isQuote q = true) : q ≠ '\\' := by
  rintro rfl
  cases hq

/-- The last character of a mark is that of the text before it. -/
theorem Mark.last_over (m : Mark) (s : Text) : (m.over s).last = s.getLast?.getD m.last := by
  induction s generalizing m with
  | nil => rfl
  | cons c s ih =>
      rw [Mark.over_cons, ih, List.getLast?_cons]
      rfl

/-- Inside of quotes only the open one counts, and no backslash may stand before it. -/
theorem Mark.quote_step (hm : m.quote = some q) (c : Char) :
    (m.step c).quote = if m.last ≠ '\\' ∧ c = q then none else some q := by
  unfold Mark.step
  by_cases hlast : m.last = '\\'
  · simp [hlast, hm]
  · simp [hlast, hm]

theorem last_over_quoted (q : Char) (s : Text) (hq : q ≠ '\\') :
    (Mark.initial.over (q :: s)).last = '\\' ↔ s.getLast? = some '\\' := by
  rw [Mark.over_cons, Mark.last_over]
  cases s.getLast? with
  | none => simpa [Mark.step] using hq
  | some c => simp

/-- The quote is still open behind one more character, unless that one closes it. -/
theorem quote_over_concat (hq : isQuote q = true)
    (hfront : (Mark.initial.over (q :: front)).quote = some q) (c : Char) :
    (Mark.initial.over (q :: (front ++ [c]))).quote
      = if front.getLast? ≠ some '\\' ∧ c = q then none else some q := by
  rw [← List.cons_append, Mark.over_append, Mark.over_cons, Mark.over_nil, Mark.quote_step hfront]
  simp only [ne_eq, last_over_quoted q front (ne_backslash_of_isQuote hq)]

/-- **A literal has its quote inside behind backslashes only, and no backslash at the end.** -/
theorem isLiteral_iff : IsLiteral q body a
    ↔ a = q :: body ++ [q] ∧ isQuote q = true ∧ body.getLast? ≠ some '\\'
      ∧ ∀ front back, body = front ++ q :: back → front.getLast? = some '\\' := by
  constructor
  · rintro ⟨rfl, hq, hstays, hcloses⟩
    refine ⟨rfl, hq, ?_, ?_⟩
    · intro hlast
      rw [List.cons_append, quote_over_concat hq (hstays body List.prefix_rfl)] at hcloses
      simp [hlast] at hcloses
    · rintro front back rfl
      have hbehind := hstays (front ++ [q]) ⟨back, by simp⟩
      rw [quote_over_concat hq (hstays front (List.prefix_append _ _))] at hbehind
      by_cases hlast : front.getLast? = some '\\'
      · exact hlast
      · simp [hlast] at hbehind
  · rintro ⟨rfl, hq, hlast, hescaped⟩
    have hstays : ∀ front, front <+: body → (Mark.initial.over (q :: front)).quote = some q := by
      intro front
      -- from the left: while the quote is open, the next character closes it only if it is that
      -- quote and no backslash stands before it
      induction front using List.reverseRecOn with
      | nil => exact fun _ => by simp [Mark.step, Mark.initial, hq]
      | append_singleton front c ih =>
          rintro ⟨back, hback⟩
          rw [List.append_assoc, List.singleton_append] at hback
          rw [quote_over_concat hq (ih ⟨c :: back, hback⟩), if_neg]
          rintro ⟨hlast, rfl⟩
          exact hlast (hescaped front back hback.symm)
    refine ⟨rfl, hq, hstays, ?_⟩
    rw [List.cons_append, quote_over_concat hq (hstays body List.prefix_rfl), if_pos ⟨hlast, rfl⟩]

/-- A literal holds no comma at which it is cut. -/
theorem IsLiteral.pieces_eq (h : IsLiteral q body a) : pieces a = [a] := by
  rw [pieces_eq_singleton_iff]
  intro front back hfront hcut
  have hquoted := h.quoted
  rw [hfront] at hquoted
  cases front with
  | nil =>
      obtain ⟨rfl, -⟩ := List.cons.inj hquoted
      exact absurd h.quote (by decide)
  | cons d front =>
      obtain ⟨rfl, htail⟩ := List.cons.inj hquoted
      have hinside : front <+: body := by
        rcases List.prefix_concat_iff.mp ⟨',' :: back, htail⟩ with hall | hpart
        · exact absurd (congrArg List.length htail) (by simp [hall])
        · exact hpart
      have hopen := hcut.outside
      rw [Mark.outside, h.stays front hinside] at hopen
      cases hopen

theorem isBlank_of_isQuote (hq : isQuote q = true) : Text.isBlank q = false := by
  cases hblank : Text.isBlank q with
  | false => rfl
  | true =>
      rw [isQuote_of_isBlank hblank] at hq
      cases hq

/-- **A literal is one argument.** -/
theorem IsLiteral.splitArguments_eq (h : IsLiteral q body a) : splitArguments a = [a] := by
  have hblank := isBlank_of_isQuote h.quote
  have htrim : Text.trim a = a := by
    rw [h.quoted]
    exact Text.trim_append_cons (w := []) rfl hblank body hblank []
  have hsome : a ≠ [] := by
    rintro rfl
    cases h.quoted
  rw [Transform.splitArguments_eq, h.pieces_eq, ← List.nil_append [a], dropEmptyLast_concat,
    if_neg hsome, List.map_append, List.map_singleton, htrim]
  rfl

/-! ## §3. Escapes. -/

/-- The text without the backslashes that stand directly before a quote. -/
def unescape (q : Char) : Text → Text
  | [] => []
  | c :: s => if c = '\\' ∧ s.head? = some q then unescape q s else c :: unescape q s

theorem length_unescape_le (q : Char) (s : Text) : (unescape q s).length ≤ s.length := by
  induction s with
  | nil => exact Nat.le_refl 0
  | cons c s ih =>
      rw [unescape]
      split
      · exact Nat.le_succ_of_le ih
      · exact Nat.succ_le_succ ih

/-- A text stays when none stands before a quote. -/
theorem unescape_eq_self_iff :
    unescape q s = s ↔ ∀ front back, s ≠ front ++ '\\' :: q :: back := by
  induction s with
  | nil => simp [unescape]
  | cons c s ih =>
      rw [unescape]
      by_cases hescape : c = '\\' ∧ s.head? = some q
      · rw [if_pos hescape]
        obtain ⟨rfl, hhead⟩ := hescape
        obtain ⟨back, rfl⟩ := List.head?_eq_some_iff.mp hhead
        constructor
        · -- without the backslash the text is shorter
          intro heq
          have hlength := congrArg List.length heq
          have hle := length_unescape_le q (q :: back)
          rw [List.length_cons] at hlength
          omega
        · intro hnone
          exact absurd rfl (hnone [] back)
      · rw [if_neg hescape, List.cons.injEq, ih]
        constructor
        · rintro ⟨-, hnone⟩ front back hs
          cases front with
          | nil =>
              obtain ⟨rfl, rfl⟩ := List.cons.inj hs
              exact hescape ⟨rfl, rfl⟩
          | cons d front => exact hnone front back (List.cons.inj hs).2
        · intro hnone
          refine ⟨rfl, fun front back hs => hnone (c :: front) back ?_⟩
          rw [hs, List.cons_append]

/-- Two quotes around two texts are the same when the whole is. -/
theorem quoted_inj {q' : Char} {body' : Text} (h : q :: body ++ [q] = q' :: body' ++ [q']) :
    q = q' ∧ body = body' := by
  obtain ⟨rfl, htail⟩ := List.cons.inj h
  exact ⟨rfl, List.append_cancel_right htail⟩

/-- A text between quotes that keeps them apart is a literal without escapes. -/
theorem isLiteral_of_not_mem (hq : isQuote q = true) (hmem : q ∉ body)
    (hlast : body.getLast? ≠ some '\\') : IsLiteral q body (q :: body ++ [q]) := by
  refine isLiteral_iff.mpr ⟨rfl, hq, hlast, ?_⟩
  rintro front back rfl
  exact absurd (List.mem_append_right front List.mem_cons_self) hmem

/-- A literal without escapes holds no quote. -/
theorem IsLiteral.not_mem (h : IsLiteral q body a) (hplain : unescape q body = body) :
    q ∉ body := by
  intro hmem
  obtain ⟨front, back, hbody⟩ := List.append_of_mem hmem
  have hlast := (isLiteral_iff.mp h).2.2.2 front back hbody
  obtain ⟨front, rfl⟩ := List.getLast?_eq_some_iff.mp hlast
  refine unescape_eq_self_iff.mp hplain front back ?_
  rw [hbody, List.append_assoc, List.singleton_append]

/-! ## §4. Arguments of a text. -/

theorem Mark.Rested.over (hm : m.Rested) (hs : (Mark.initial.over s).Rested) :
    (m.over s).Rested := by
  cases s with
  | nil => exact hm
  | cons c s =>
      rw [Mark.over_cons, hm.step_eq]
      exact hs

/-- The scan comes to every piece of a text with a mark at rest. -/
theorem piece_at_rest {p : Text} : ∀ s : Text, p ∈ pieces s →
    ∃ front back, s = front ++ p ++ back ∧ (Mark.initial.over front).Rested := by
  refine pieces_induction ?_ ?_
  · intro s hs hp
    rw [hs, List.mem_singleton] at hp
    subst hp
    exact ⟨[], [], by simp, Mark.rested_initial⟩
  · intro front back hcut hfront hback hp
    rw [pieces_append hcut] at hp
    rcases List.mem_append.mp hp with hp | hp
    · obtain ⟨before, behind, rfl, hrest⟩ := hfront hp
      exact ⟨before, behind ++ ',' :: back, by simp, hrest⟩
    · obtain ⟨before, behind, rfl, hrest⟩ := hback hp
      refine ⟨front ++ ',' :: before, behind, by simp, ?_⟩
      rw [Mark.over_append, Mark.over_cons]
      exact (Mark.rested_comma hcut.outside).over hrest

theorem mem_of_mem_dropEmptyLast {ps : List Text} {p : Text} (h : p ∈ dropEmptyLast ps) :
    p ∈ ps := by
  rw [dropEmptyLast_eq] at h
  split at h
  · exact (List.dropLast_sublist ps).mem h
  · exact h

/-- **So it does to every argument**, and goes over it as from the beginning. -/
theorem argument_at_rest (h : a ∈ splitArguments s) :
    ∃ front back, s = front ++ a ++ back ∧ (Mark.initial.over front).Rested := by
  rw [splitArguments_eq] at h
  obtain ⟨p, hp, rfl⟩ := List.mem_map.mp h
  obtain ⟨front, back, rfl, hrest⟩ := piece_at_rest s (mem_of_mem_dropEmptyLast hp)
  -- between the cut and the argument stands white space only
  obtain ⟨w, w', hw, -, htrim⟩ := Text.exists_trim p
  refine ⟨front ++ w, w' ++ back, ?_, ?_⟩
  · nth_rewrite 1 [htrim]
    simp
  · rw [Mark.over_append]
    exact hrest.over_blank hw

/-- What takes the quotes off a text gives the literals of the scan without their escapes exactly
where the text between two equal quotes neither holds that quote nor ends in a backslash. -/
theorem unquote?_isLiteral_iff (a : Text) :
    (∀ s, unquote? a = some s ↔ ∃ q body, IsLiteral q body a ∧ s = unescape q body)
      ↔ ∀ q body, isQuote q = true → a = q :: body ++ [q] →
          q ∉ body ∧ body.getLast? ≠ some '\\' := by
  constructor
  · rintro hagree q body hq rfl
    obtain ⟨q', body', hliteral, hplain⟩ := (hagree body).mp (unquote?_quoted hq body)
    obtain ⟨rfl, rfl⟩ := quoted_inj hliteral.quoted
    exact ⟨hliteral.not_mem hplain.symm, (isLiteral_iff.mp hliteral).2.2.1⟩
  · intro happart s
    rw [unquote?_eq_some]
    constructor
    · rintro ⟨q, hq, rfl⟩
      obtain ⟨hmem, hlast⟩ := happart q s hq rfl
      refine ⟨q, s, isLiteral_of_not_mem hq hmem hlast, (unescape_eq_self_iff.mpr ?_).symm⟩
      rintro front back rfl
      exact hmem (by simp)
    · rintro ⟨q, body, hliteral, rfl⟩
      obtain ⟨hmem, -⟩ := happart q body hliteral.quote hliteral.quoted
      refine ⟨q, hliteral.quote, ?_⟩
      rw [unescape_eq_self_iff.mpr, hliteral.quoted]
      rintro front back rfl
      exact hmem (by simp)

/-- **WHERE BOTH AGREE ON LITERALS.**  The scan that cuts a text comes to an argument with nothing
open.  What takes the quotes off the argument gives the literals of that scan without their escapes
exactly where the text between two equal quotes neither holds that quote nor ends in a backslash.  A
literal loses its two quotes and nothing else, and is an argument by itself. -/
theorem unquote?_argument (h : a ∈ splitArguments s) :
    (∃ front back, s = front ++ a ++ back ∧ (Mark.initial.over front).Rested)
      ∧ ((∀ t, unquote? a = some t ↔ ∃ q body, IsLiteral q body a ∧ t = unescape q body)
        ↔ ∀ q body, isQuote q = true → a = q :: body ++ [q] →
            q ∉ body ∧ body.getLast? ≠ some '\\')
      ∧ ∀ q body, IsLiteral q body a → splitArguments a = [a] ∧ unquote? a = some body := by
  refine ⟨argument_at_rest h, unquote?_isLiteral_iff a, ?_⟩
  intro q body hliteral
  refine ⟨hliteral.splitArguments_eq, ?_⟩
  rw [hliteral.quoted]
  exact unquote?_quoted hliteral.quote body

/-- Two literals in one argument, and one with an escape. -/
theorem unquote?_argument_adjacent :
    splitArguments "'a' 'b', \"it\\\"s\"".toList = ["'a' 'b'".toList, "\"it\\\"s\"".toList]
      ∧ unquote? "'a' 'b'".toList = some "a' 'b".toList
      ∧ ¬ (∀ t, unquote? "'a' 'b'".toList = some t
          ↔ ∃ q body, IsLiteral q body "'a' 'b'".toList ∧ t = unescape q body)
      ∧ ¬ (∀ t, unquote? "\"it\\\"s\"".toList = some t
          ↔ ∃ q body, IsLiteral q body "\"it\\\"s\"".toList ∧ t = unescape q body) := by
  have hsplit : splitArguments "'a' 'b', \"it\\\"s\"".toList
      = ["'a' 'b'".toList, "\"it\\\"s\"".toList] := by decide
  have hfirst := unquote?_argument (a := "'a' 'b'".toList) (by rw [hsplit]; simp)
  have hsecond := unquote?_argument (a := "\"it\\\"s\"".toList) (by rw [hsplit]; simp)
  refine ⟨hsplit, by decide, fun hagree => ?_, fun hagree => ?_⟩
  · exact absurd (hfirst.2.1.mp hagree '\'' "a' 'b".toList rfl rfl).1 (by decide)
  · exact absurd (hsecond.2.1.mp hagree '"' "it\\\"s".toList rfl rfl).1 (by decide)

end Crosswalk.Transform
