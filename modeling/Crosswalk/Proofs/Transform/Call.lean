/-
  Crosswalk.Proofs.Transform.Call
  ──────────────────────────────────────
  **THE BODY OF A CALL AND ITS PIECES.**

  The body of a call ends at the first parenthesis that closes more than was
  opened, so it leaves nothing open itself.  Such a text is cut at its commas
  outside of all quotes and parentheses, and its pieces leave nothing open
  either.

    • `callBody?_eq_some`: the body is the text before such a parenthesis,
    • `isPiece_of_mem`, `pieces_of_isPiece`: the pieces of a text that leaves
      nothing open, and texts that are its pieces,
    • `callText?_eq_some`: the texts that are calls,
    • `callArguments?_pieces`: how the body of a call is cut.
-/
import Crosswalk.Proofs.Text.Trim
import Crosswalk.Proofs.Transform.Pieces
import Crosswalk.Transform.Expression

namespace Crosswalk.Transform

variable {m : Mark} {d : Nat} {c : Char} {f : Function} {s t body front back : Text}
  {ps args : List Text}

/-! ## §1. The body. -/

/-- Read from a mark with some parentheses open, a text closes them all, and no other ones. -/
structure ClosesFrom (m : Mark) (d : Nat) (t : Text) : Prop where
  outside : (m.over t).outside = true
  even : d + nestingFrom m t = 0
  nested : ∀ front, front <+: t → 0 ≤ d + nestingFrom m front

theorem zero_add_nestingFrom (t : Text) :
    ((0 : Nat) : Int) + nestingFrom .initial t = nesting t :=
  Int.zero_add _

theorem closesFrom_initial : ClosesFrom .initial 0 t ↔ Enclosed t := by
  constructor
  · rintro ⟨hout, heven, hnested⟩
    simp only [zero_add_nestingFrom] at heven hnested
    exact ⟨hout, heven, hnested⟩
  · rintro ⟨hout, heven, hnested⟩
    refine ⟨hout, ?_, ?_⟩
    · simpa only [zero_add_nestingFrom] using heven
    · simpa only [zero_add_nestingFrom] using hnested

/-- What a text closes with a character before it, when that one closes not too many. -/
theorem closesFrom_cons (h : 0 ≤ d + m.weight c) :
    ClosesFrom m d (c :: t) ↔ ClosesFrom (m.step c) (depthAfter m d c) t := by
  have hsum : ∀ u,
      (depthAfter m d c : Int) + nestingFrom (m.step c) u = d + nestingFrom m (c :: u) := by
    intro u
    rw [depthAfter_eq h, Int.add_assoc]
    rfl
  constructor
  · rintro ⟨hout, heven, hnested⟩
    refine ⟨hout, (hsum t).trans heven, fun front hfront => ?_⟩
    rw [hsum]
    exact hnested (c :: front) (List.prefix_cons_inj c |>.mpr hfront)
  · rintro ⟨hout, heven, hnested⟩
    refine ⟨hout, (hsum t).symm.trans heven, fun front hfront => ?_⟩
    rcases List.prefix_cons_iff.mp hfront with rfl | ⟨front, rfl, hrest⟩
    · simp [nestingFrom]
    · rw [← hsum]
      exact hnested front hrest

theorem bodyFrom?_close (hm : m.outside = true) (s : Text) :
    bodyFrom? m 0 (')' :: s) = some [] := by
  rw [bodyFrom?]
  simp [hm]

/-- Any other character goes to the body. -/
theorem bodyFrom?_cons (hc : ¬ (m.outside = true ∧ c = ')' ∧ d = 0)) (s : Text) :
    bodyFrom? m d (c :: s) = (bodyFrom? (m.step c) (depthAfter m d c) s).map (c :: ·) := by
  rw [bodyFrom?.eq_def, depthAfter]
  simp only
  by_cases hclose : (m.outside && c = ')') = true
  · have hopen : ¬ (m.outside && c = '(') = true := by
      rintro hopen
      simp_all
    rw [if_pos hclose, if_neg hopen, if_pos hclose]
    cases d with
    | zero => exact absurd ⟨by simp_all, by simp_all, rfl⟩ hc
    | succ d => rfl
  · rw [if_neg hclose]
    by_cases hopen : (m.outside && c = '(') = true
    · rw [if_pos hopen, if_pos hopen]
    · rw [if_neg hopen, if_neg hopen, if_neg hclose]

theorem weight_nonneg_of_not_close (hc : ¬ (m.outside = true ∧ c = ')' ∧ d = 0)) :
    0 ≤ d + m.weight c := by
  unfold Mark.weight
  by_cases hopen : (m.outside && c = '(') = true
  · rw [if_pos hopen]
    omega
  · rw [if_neg hopen]
    by_cases hclose : (m.outside && c = ')') = true
    · have hpos : d ≠ 0 := by
        intro hd
        simp_all
      rw [if_pos hclose]
      omega
    · rw [if_neg hclose]
      omega

theorem bodyFrom?_eq_some :
    bodyFrom? m d s = some t ↔ ∃ rest, s = t ++ ')' :: rest ∧ ClosesFrom m d t := by
  induction s generalizing m d t with
  | nil => simp [bodyFrom?]
  | cons c s ih =>
      by_cases hc : m.outside = true ∧ c = ')' ∧ d = 0
      · obtain ⟨hout, rfl, rfl⟩ := hc
        rw [bodyFrom?_close hout]
        constructor
        · rintro ⟨⟩
          refine ⟨s, rfl, hout, rfl, fun front hfront => ?_⟩
          rw [List.prefix_nil.mp hfront]
          exact Int.le_refl 0
        · rintro ⟨rest, hs, hcloses⟩
          cases t with
          | nil => rfl
          | cons c t =>
              -- the parenthesis would close one too many
              obtain ⟨rfl, -⟩ := List.cons.inj hs
              have hfirst := hcloses.nested [')'] (by simp)
              simp [nestingFrom, Mark.weight, hout] at hfirst
      · have hweight := weight_nonneg_of_not_close hc
        rw [bodyFrom?_cons hc, Option.map_eq_some_iff]
        constructor
        · rintro ⟨t, ht, rfl⟩
          obtain ⟨rest, rfl, hcloses⟩ := ih.mp ht
          exact ⟨rest, rfl, (closesFrom_cons hweight).mpr hcloses⟩
        · rintro ⟨rest, hs, hcloses⟩
          cases t with
          | nil =>
              obtain ⟨rfl, -⟩ := List.cons.inj hs
              have hd : (d : Int) + 0 = 0 := hcloses.even
              exact absurd ⟨hcloses.outside, rfl, by omega⟩ hc
          | cons c t =>
              obtain ⟨rfl, htail⟩ := List.cons.inj hs
              exact ⟨t, ih.mpr ⟨rest, htail, (closesFrom_cons hweight).mp hcloses⟩, rfl⟩

/-- **The body of a call is the text before the parenthesis that closes it.** -/
theorem callBody?_eq_some : callBody? s = some t ↔ ∃ rest, s = t ++ ')' :: rest ∧ Enclosed t := by
  unfold callBody?
  rw [bodyFrom?_eq_some]
  simp only [closesFrom_initial]

/-! ## §2. The head. -/

theorem isNameChar_of_mem_name (f : Function) : ∀ c ∈ f.name, isNameChar c = true :=
  List.all_eq_true.mp (by cases f <;> decide)

theorem toNat_of_isNameChar (h : isNameChar c = true) : 0x30 ≤ c.toNat ∧ c.toNat ≤ 0x7A := by
  have hkinds : (((c.isUpper || c.isLower) || c.isDigit) || c == '_') = true := h
  simp only [Bool.or_eq_true, beq_iff_eq] at hkinds
  rcases hkinds with ((hupper | hlower) | hdigit) | rfl
  · have hrange : 0x41 ≤ c.toNat ∧ c.toNat ≤ 0x5A := of_decide_eq_true hupper
    omega
  · obtain ⟨hlow, hhigh⟩ := Bool.and_eq_true_iff.mp hlower
    have hrange : 0x61 ≤ c.toNat ∧ c.toNat ≤ 0x7A :=
      ⟨of_decide_eq_true hlow, of_decide_eq_true hhigh⟩
    omega
  · obtain ⟨hlow, hhigh⟩ := Bool.and_eq_true_iff.mp hdigit
    have hrange : 0x30 ≤ c.toNat ∧ c.toNat ≤ 0x39 :=
      ⟨of_decide_eq_true hlow, of_decide_eq_true hhigh⟩
    omega
  · decide

/-- White space stands below the characters of names, or above them. -/
theorem not_isNameChar_of_isBlank (h : Text.isBlank c = true) : isNameChar c = false := by
  have hblank : c.toNat ≤ 0x20 ∨ 0x80 ≤ c.toNat := by
    simp only [Text.isBlank, Bool.or_eq_true, Bool.and_eq_true, decide_eq_true_eq, beq_iff_eq] at h
    omega
  cases hname : isNameChar c with
  | false => rfl
  | true =>
      have hrange := toNat_of_isNameChar hname
      omega

/-- **The text behind the opening parenthesis of a call.** -/
theorem afterHead?_eq_some :
    afterHead? f s = some t ↔ ∃ gap, Text.blank gap = true ∧ s = f.name ++ gap ++ '(' :: t := by
  constructor
  · intro h
    unfold afterHead? at h
    split at h
    next hname =>
      split at h
      next rest hrest =>
        obtain rfl : rest = t := Option.some.inj h
        refine ⟨(s.dropWhile isNameChar).takeWhile Text.isBlank, ?_, ?_⟩
        · exact List.all_eq_true.mpr fun c hc => List.mem_takeWhile_imp hc
        · rw [← hrest, ← hname, List.append_assoc, Text.trimStart, List.takeWhile_append_dropWhile,
            List.takeWhile_append_dropWhile]
      next => cases h
    next => cases h
  · rintro ⟨gap, hgap, rfl⟩
    -- the name ends where white space or the parenthesis begins
    have hstop : (gap ++ '(' :: t).takeWhile isNameChar = []
        ∧ (gap ++ '(' :: t).dropWhile isNameChar = gap ++ '(' :: t := by
      obtain ⟨c, rest, hrest, hc⟩ : ∃ c rest, gap ++ '(' :: t = c :: rest
          ∧ isNameChar c = false := by
        cases gap with
        | nil => exact ⟨_, _, rfl, by decide⟩
        | cons c gap => exact ⟨c, _, rfl, not_isNameChar_of_isBlank (Text.blank_cons_iff.mp hgap).1⟩
      rw [hrest]
      exact ⟨List.takeWhile_cons_of_neg (by simp [hc]), List.dropWhile_cons_of_neg (by simp [hc])⟩
    have hname := isNameChar_of_mem_name f
    have hgapEnd : Text.trimStart (gap ++ '(' :: t) = '(' :: t := by
      rw [Text.trimStart_append hgap, Text.trimStart_cons (by decide)]
    rw [List.append_assoc, afterHead?, List.takeWhile_append_of_pos hname, hstop.1, List.append_nil,
      if_pos rfl, List.dropWhile_append_of_pos hname, hstop.2, hgapEnd]
    rfl

/-! ## §3. The pieces of a text that leaves nothing open. -/

/-- A text that leaves nothing open, with no comma outside of quotes and parentheses. -/
structure IsPiece (s : Text) : Prop extends Enclosed s where
  whole : ∀ front back, s = front ++ ',' :: back → ¬ TopLevel front

/-- In such a text the number of open parentheses is never less than none. -/
theorem Enclosed.depthFrom_eq (h : Enclosed s) (hfront : front <+: s) :
    (depthFrom .initial 0 front : Int) = nesting front := by
  have hnested : ∀ more, more <+: front → 0 ≤ ((0 : Nat) : Int) + nestingFrom .initial more := by
    intro more hmore
    rw [zero_add_nestingFrom]
    exact h.nested more (hmore.trans hfront)
  rw [Transform.depthFrom_eq hnested, zero_add_nestingFrom]

/-- **It is cut outside of all quotes and parentheses.** -/
theorem Enclosed.atCut_iff (h : Enclosed s) (hfront : front <+: s) :
    AtCut front ↔ TopLevel front := by
  have hdepth := h.depthFrom_eq hfront
  constructor
  · rintro ⟨hout, hlevel⟩
    rw [hlevel] at hdepth
    exact ⟨hout, hdepth.symm⟩
  · rintro ⟨hout, heven⟩
    rw [heven] at hdepth
    exact ⟨hout, by exact_mod_cast hdepth⟩

theorem isPiece_iff : IsPiece s ↔ Enclosed s ∧ pieces s = [s] := by
  rw [pieces_eq_singleton_iff]
  constructor
  · rintro ⟨hs, hwhole⟩
    refine ⟨hs, ?_⟩
    rintro front back rfl hcut
    exact hwhole front back rfl ((hs.atCut_iff (List.prefix_append _ _)).mp hcut)
  · rintro ⟨hs, hnone⟩
    refine ⟨hs, ?_⟩
    rintro front back rfl htop
    exact hnone front back rfl ((hs.atCut_iff (List.prefix_append _ _)).mpr htop)

instance : Decidable (IsPiece s) :=
  decidable_of_iff _ isPiece_iff.symm

theorem TopLevel.rested_comma (h : TopLevel front) :
    (Mark.initial.over (front ++ [','])).Rested := by
  rw [Mark.over_append]
  exact Mark.rested_comma h.outside

theorem TopLevel.comma (h : TopLevel front) : TopLevel (front ++ [',']) := by
  refine ⟨h.rested_comma.outside, ?_⟩
  rw [nesting_append, h.even]
  simp [nestingFrom, Mark.weight]

/-- **Both sides of a comma outside of all quotes and parentheses leave nothing open.** -/
theorem Enclosed.cut (h : Enclosed (front ++ ',' :: back)) (htop : TopLevel front) :
    Enclosed front ∧ Enclosed back := by
  constructor
  · refine ⟨htop.outside, htop.even, fun more hmore => ?_⟩
    exact h.nested more (hmore.trans (List.prefix_append _ _))
  · rw [List.append_cons] at h
    exact h.of_append htop.comma.even htop.rested_comma

theorem Enclosed.join (hfront : Enclosed front) (hback : Enclosed back) :
    Enclosed (front ++ ',' :: back) := by
  have hrest := Mark.rested_comma hfront.outside
  have hnesting : ∀ more, nestingFrom (Mark.initial.over front) (',' :: more) = nesting more := by
    intro more
    rw [← hrest.nestingFrom_eq]
    simp [nestingFrom, Mark.weight]
  refine hfront.extend ?_ ?_ ?_
  · rw [Mark.over_cons, hrest.outside_over]
    exact hback.outside
  · rw [hnesting]
    exact hback.even
  · intro more hmore
    rcases List.prefix_cons_iff.mp hmore with rfl | ⟨more, rfl, hpart⟩
    · exact Int.le_refl 0
    · rw [hnesting]
      exact hback.nested more hpart

/-- **The pieces of a text that leaves nothing open leave nothing open themselves.** -/
theorem isPiece_of_mem {p : Text} : ∀ s : Text, Enclosed s → p ∈ pieces s → IsPiece p := by
  refine pieces_induction ?_ ?_
  · intro s hwhole hs hp
    rw [hwhole, List.mem_singleton] at hp
    subst hp
    exact isPiece_iff.mpr ⟨hs, hwhole⟩
  · intro front back hcut hfront hback hs hp
    have hsides := hs.cut ((hs.atCut_iff (List.prefix_append _ _)).mp hcut)
    rw [pieces_append hcut] at hp
    rcases List.mem_append.mp hp with hp | hp
    · exact hfront hsides.1 hp
    · exact hback hsides.2 hp

/-- **Texts that leave nothing open and have no cuts are the pieces of what they make**, which
leaves nothing open. -/
theorem pieces_of_isPiece (hps : ps ≠ []) (h : ∀ p ∈ ps, IsPiece p) :
    Enclosed ([','].intercalate ps) ∧ pieces ([','].intercalate ps) = ps := by
  constructor
  · induction ps with
    | nil => exact absurd rfl hps
    | cons p ps ih =>
        have hp := (h p List.mem_cons_self).toEnclosed
        by_cases hnil : ps = []
        · subst hnil
          rw [List.intercalate_singleton]
          exact hp
        · rw [List.intercalate_cons_of_ne_nil hnil, List.append_assoc, List.singleton_append]
          exact hp.join (ih hnil fun q hq => h q (List.mem_cons_of_mem p hq))
  · refine pieces_intercalate hps (fun p hp => (isPiece_iff.mp (h p hp)).2) fun p hp => ?_
    have henclosed := (h p hp).toEnclosed
    exact (henclosed.atCut_iff List.prefix_rfl).mpr henclosed.topLevel

/-! ## §4. Arguments. -/

/-- The text between the parentheses of a call. -/
def callText? (f : Function) (s : Text) : Option Text :=
  (afterHead? f s).bind callBody?

theorem callArguments?_eq (f : Function) (s : Text) :
    callArguments? f s = (callText? f s).map splitArguments := rfl

/-- **The texts that are calls of a function.** -/
theorem callText?_eq_some : callText? f s = some body ↔
    ∃ gap rest, Text.blank gap = true ∧ Enclosed body
      ∧ s = f.name ++ gap ++ '(' :: (body ++ ')' :: rest) := by
  unfold callText?
  rw [Option.bind_eq_some_iff]
  constructor
  · rintro ⟨t, hhead, hbody⟩
    obtain ⟨gap, hgap, rfl⟩ := afterHead?_eq_some.mp hhead
    obtain ⟨rest, rfl, hclosed⟩ := callBody?_eq_some.mp hbody
    exact ⟨gap, rest, hgap, hclosed, rfl⟩
  · rintro ⟨gap, rest, hgap, hclosed, rfl⟩
    exact ⟨_, afterHead?_eq_some.mpr ⟨gap, hgap, rfl⟩, callBody?_eq_some.mpr ⟨rest, rfl, hclosed⟩⟩

/-- A text cut into pieces: they make it with commas between them, these commas are the ones outside
of all quotes and parentheses, and every piece by itself has its quotes closed, its parentheses
matched, and no such comma. -/
structure CutInto (body : Text) (ps : List Text) : Prop where
  joined : [','].intercalate ps = body
  commas : ∀ front back, body = front ++ ',' :: back →
    (TopLevel front ↔ ∃ k, 0 < k ∧ k < ps.length ∧ front = [','].intercalate (ps.take k))
  isPiece : ∀ p ∈ ps, IsPiece p

theorem Enclosed.cutInto (h : Enclosed body) : CutInto body (pieces body) where
  joined := intercalate_pieces body
  commas := by
    intro front back hfront
    rw [← h.atCut_iff ⟨',' :: back, hfront.symm⟩]
    exact Transform.atCut_iff hfront
  isPiece := fun p hp => isPiece_of_mem body h hp

/-- Where a text that leaves nothing open closes a parenthesis, one is open. -/
theorem Enclosed.depthFrom_pos (h : Enclosed body) (hfront : body = front ++ ')' :: back)
    (hout : (Mark.initial.over front).outside = true) : 0 < depthFrom .initial 0 front := by
  have hdepth := h.depthFrom_eq ⟨')' :: back, hfront.symm⟩
  -- with the parenthesis itself not more are closed than were opened
  have hnested := h.nested (front ++ [')']) ⟨back, by rw [hfront, List.append_assoc]; rfl⟩
  have hweight : nestingFrom (Mark.initial.over front) [')'] = -1 := by
    simp [nestingFrom, Mark.weight, hout]
  rw [nesting_append, hweight] at hnested
  omega

/-- **A CALL IS CUT AT THE COMMAS OUTSIDE OF EVERYTHING.**  The text between the parentheses of a
call is cut into pieces, of which nothing is lost and none cuts through a literal or a nested call
(`CutInto`).  The arguments are these pieces, trimmed, without the last one if that is empty.  Where
the text closes a parenthesis, the scan counts one that is open. -/
theorem callArguments?_pieces (h : callText? f s = some body) :
    (∃ gap rest, Text.blank gap = true ∧ s = f.name ++ gap ++ '(' :: (body ++ ')' :: rest))
      ∧ (∃ ps, CutInto body ps ∧ callArguments? f s
          = some ((if ps.getLast? = some [] then ps.dropLast else ps).map Text.trim))
      ∧ ∀ front back, body = front ++ ')' :: back → (Mark.initial.over front).outside = true →
          0 < depthFrom .initial 0 front := by
  obtain ⟨gap, rest, hgap, hbody, hs⟩ := callText?_eq_some.mp h
  refine ⟨⟨gap, rest, hgap, hs⟩, ⟨pieces body, hbody.cutInto, ?_⟩, ?_⟩
  · rw [callArguments?_eq, h, Option.map_some, splitArguments_eq, dropEmptyLast_eq]
  · intro front back hfront hout
    exact hbody.depthFrom_pos hfront hout

/-- A call with a comma and a parenthesis in a literal, a nested call, an escaped quote, and nothing
behind its last comma. -/
def nestedCall : Text :=
  "concat ('a,)' , substring(f(x), \\',2),) rest".toList

/-- The text between its parentheses. -/
def nestedBody : Text :=
  "'a,)' , substring(f(x), \\',2),".toList

theorem callArguments?_pieces_nested :
    callText? .concat nestedCall = some nestedBody
      ∧ callArguments? .concat nestedCall = some ["'a,)'".toList, "substring(f(x), \\',2)".toList]
      ∧ (∃ ps, CutInto nestedBody ps)
      ∧ 0 < depthFrom .initial 0 "'a,)' , substring(f(x".toList := by
  have hcall : callText? .concat nestedCall = some nestedBody := by decide
  obtain ⟨-, ⟨ps, hps, -⟩, hopen⟩ := callArguments?_pieces hcall
  exact ⟨hcall, by decide, ⟨ps, hps⟩, hopen _ ", \\',2),".toList (by decide) (by decide)⟩

end Crosswalk.Transform
