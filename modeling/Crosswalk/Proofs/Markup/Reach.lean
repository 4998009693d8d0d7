/-
  Crosswalk.Proofs.Markup.Reach
  ──────────────────────────────────────
  **READING ONE TEXT AFTER ANOTHER.**

  A text leads from the elements read so far to others (`Reaches`) when it is
  cut into pieces up to its end and every piece can be taken.  Reading a
  document is reaching its root alone (`read_eq_ok`), so what every piece keeps
  holds at the end of a text (`Reaches.invariant`), and two readings that go in
  step do so to the end (`Reaches.simulate`).

  A piece is not changed by more text behind it (`scan_more`), except for a run
  of text at the end, which goes on.  Read in two parts it comes to the same
  (`take_text_append`), and so:

    • `Reaches.append_iff`: behind a text that was read, another one is read as
      if it began there,
    • `reaches_markups`: written pieces lead to what their run comes to.
-/
import Crosswalk.Proofs.Markup.Piece

namespace Crosswalk.Markup

/-! ## §1. What a text leads to. -/

/-- The text leads from the elements read so far to others, piece by piece up to its end. -/
inductive Reaches : Build → Text → Build → Prop
  | done {b : Build} : Reaches b [] b
  | token {b b' c : Build} {s rest : Text} {t : Token} (scanned : scan s = .token t rest)
      (taken : b.take t = .ok b') (further : Reaches b' rest c) : Reaches b s c

theorem eq_nil_of_scan {s : Text} (h : scan s = .done) : s = [] := by
  cases s with
  | nil => rfl
  | cons c s =>
      simp only [scan, scanMarkup, scanBang] at h
      repeat' split at h
      all_goals exact Scan.noConfusion h

theorem reaches_nil {b c : Build} : Reaches b [] c ↔ b = c := by
  constructor
  · intro h
    cases h with
    | done => rfl
    | token scanned _ _ => exact absurd scanned (by simp [scan])
  · rintro rfl
    exact .done

/-- The piece at the front of a text decides what comes of it. -/
theorem reaches_iff_take {s rest : Text} {t : Token} (hs : scan s = .token t rest) {b c : Build} :
    Reaches b s c ↔ ∃ b', b.take t = .ok b' ∧ Reaches b' rest c := by
  constructor
  · intro h
    cases h with
    | done => exact absurd hs (by simp [scan])
    | token scanned taken further =>
        rw [hs] at scanned
        obtain ⟨rfl, rfl⟩ := Scan.token.inj scanned
        exact ⟨_, taken, further⟩
  · rintro ⟨b', ht, hr⟩
    exact .token hs ht hr

/-- **What every piece keeps holds at the end of a text.** -/
theorem Reaches.invariant {P : Build → Prop}
    (step : ∀ {b c : Build} {t : Token}, P b → b.take t = .ok c → P c)
    {b c : Build} {s : Text} (h : Reaches b s c) (hb : P b) : P c := by
  induction h with
  | done => exact hb
  | token _ taken _ ih => exact ih (step hb taken)

/-- **Two readings that go in step piece by piece** do so to the end of a text. -/
theorem Reaches.simulate {R : Build → Build → Prop}
    (step : ∀ {b b' c : Build} {t : Token}, R b b' → b.take t = .ok c →
      ∃ c', b'.take t = .ok c' ∧ R c c')
    {b b' c : Build} {s : Text} (h : Reaches b s c) (hb : R b b') :
    ∃ c', Reaches b' s c' ∧ R c c' := by
  induction h generalizing b' with
  | done => exact ⟨b', .done, hb⟩
  | token scanned taken _ ih =>
      obtain ⟨d, ht, hd⟩ := step hb taken
      obtain ⟨c', hr, hc⟩ := ih hd
      exact ⟨c', .token scanned ht hr, hc⟩

/-! ## §2. Documents. -/

/-- A text may end where the root is complete and no element is open. -/
theorem finish_eq_ok {b : Build} {e : Element} : b.finish = .ok e ↔ b = ⟨[], some e⟩ := by
  obtain ⟨frames, root⟩ := b
  unfold Build.finish
  cases frames with
  | cons f fs => simp
  | nil => cases root <;> simp

theorem readFrom_of_reaches {b c : Build} {s : Text} {e : Element} (h : Reaches b s c)
    (hc : c.finish = .ok e) : readFrom b s = .ok e := by
  induction h with
  | done => rw [readFrom_nil, hc]
  | token scanned taken _ ih => rw [readFrom_token scanned taken, ih hc]

theorem reaches_of_readFrom {b : Build} {s : Text} {e : Element} (h : readFrom b s = .ok e) :
    Reaches b s ⟨[], some e⟩ := by
  fun_induction readFrom b s with
  | case1 => cases h
  | case2 b s scanned root finished =>
      obtain rfl := Except.ok.inj h
      obtain rfl := eq_nil_of_scan scanned
      exact reaches_nil.mpr (finish_eq_ok.mp finished)
  | case3 => cases h
  | case4 => cases h
  | case5 b s t rest scanned b' taken hlt ih => exact .token scanned taken (ih h)

theorem readFrom_eq_ok {b : Build} {s : Text} {e : Element} :
    readFrom b s = .ok e ↔ Reaches b s ⟨[], some e⟩ :=
  ⟨reaches_of_readFrom, fun h => readFrom_of_reaches h (finish_eq_ok.mpr rfl)⟩

/-- **A document is read when its text leads to its root alone.** -/
theorem read_eq_ok {content : Text} {e : Element} :
    read content = .ok e ↔ Reaches .initial (dropMark content) ⟨[], some e⟩ := by
  rw [read_eq_ok_iff, readFrom_eq_ok]

/-! ## §3. More text behind a piece. -/

section

variable (x : Text)

theorem cutTag_more : ∀ {s body rest : Text} {quote : Option Char},
    cutTag quote s = some (body, rest) → cutTag quote (s ++ x) = some (body, rest ++ x) := by
  intro s
  induction s with
  | nil => intro body rest quote h; simp [cutTag] at h
  | cons c s ih =>
      intro body rest quote h
      rw [List.cons_append]
      unfold cutTag at h ⊢
      by_cases hend : quote = none ∧ c = '>'
      · rw [if_pos hend] at h ⊢
        obtain ⟨rfl, rfl⟩ := Prod.mk.inj (Option.some.inj h)
        rfl
      · rw [if_neg hend] at h ⊢
        obtain ⟨⟨body', rest'⟩, hcut, heq⟩ := Option.map_eq_some_iff.mp h
        obtain ⟨rfl, rfl⟩ := Prod.mk.inj heq
        exact Option.map_eq_some_iff.mpr ⟨_, ih hcut, rfl⟩

theorem cutMarked_more {stop : Text → Bool} : ∀ {s seen body rest : Text},
    cutMarked stop seen s = some (body, rest) →
      cutMarked stop seen (s ++ x) = some (body, rest ++ x) := by
  intro s
  induction s with
  | nil => intro seen body rest h; simp [cutMarked] at h
  | cons c s ih =>
      intro seen body rest h
      rw [List.cons_append, cutMarked]
      rw [cutMarked] at h
      by_cases hend : c = '>' ∧ stop seen = true
      · rw [if_pos hend] at h ⊢
        obtain ⟨rfl, rfl⟩ := Prod.mk.inj (Option.some.inj h)
        rfl
      · rw [if_neg hend] at h ⊢
        exact ih h

theorem cutNested_more : ∀ {s body rest : Text} {depth : Nat},
    cutNested depth s = some (body, rest) → cutNested depth (s ++ x) = some (body, rest ++ x) := by
  intro s
  induction s with
  | nil => intro body rest depth h; simp [cutNested] at h
  | cons c s ih =>
      intro body rest depth h
      rw [List.cons_append, cutNested]
      rw [cutNested] at h
      by_cases hend : c = '>' ∧ depth = 0
      · rw [if_pos hend] at h ⊢
        obtain ⟨rfl, rfl⟩ := Prod.mk.inj (Option.some.inj h)
        rfl
      · rw [if_neg hend] at h ⊢
        obtain ⟨⟨body', rest'⟩, hcut, heq⟩ := Option.map_eq_some_iff.mp h
        obtain ⟨rfl, rfl⟩ := Prod.mk.inj heq
        exact Option.map_eq_some_iff.mpr ⟨_, ih hcut, rfl⟩

theorem scanBang_more {whole body rest : Text} {t : Token}
    (h : scanBang whole body = .token t rest) (whole' : Text) :
    scanBang whole' (body ++ x) = .token t (rest ++ x) := by
  -- two characters decide which kind of piece it is
  match body with
  | [] => exact absurd h (by simp [scanBang])
  | [_] => exact absurd h (by simp [scanBang])
  | c :: d :: body =>
      unfold scanBang at h ⊢
      simp only [List.drop_succ_cons, List.drop_zero, List.cons_append] at h ⊢
      split at h
      next s hs =>
        obtain ⟨rfl, rfl⟩ := List.cons.inj hs
        cases hcut : cutMarked endsSection [] (c :: '[' :: body) with
        | none => simp [hcut] at h
        | some cut =>
            have hmore := cutMarked_more x hcut
            simp only [List.cons_append] at hmore
            simp only [hcut, hmore] at h ⊢
            split_ifs at h ⊢ with hlead
            obtain ⟨rfl, rfl⟩ := Scan.token.inj h
            rfl
      next s hs =>
        obtain ⟨rfl, rfl⟩ := List.cons.inj hs
        cases hcut : cutMarked endsComment [] (c :: '-' :: body) with
        | none => simp [hcut] at h
        | some cut =>
            have hmore := cutMarked_more x hcut
            simp only [List.cons_append] at hmore
            simp only [hcut, hmore] at h ⊢
            split_ifs at h ⊢ with hlead
            obtain ⟨rfl, rfl⟩ := Scan.token.inj h
            rfl
      next d' s hsection hcomment hs =>
        obtain ⟨rfl, rfl⟩ := List.cons.inj hs
        split
        next hs' => exact absurd (List.cons.inj hs').1 hsection
        next hs' => exact absurd (List.cons.inj hs').1 hcomment
        next d'' s' _ _ hs' =>
          obtain ⟨rfl, rfl⟩ := List.cons.inj hs'
          by_cases hdoctype : d = 'D' ∨ d = 'd'
          · rw [if_pos hdoctype] at h ⊢
            cases hcut : cutNested 0 (c :: d :: body) with
            | none => simp [hcut] at h
            | some cut =>
                have hmore := cutNested_more x hcut
                simp only [List.cons_append] at hmore
                simp only [hcut, hmore] at h ⊢
                split_ifs at h ⊢
                obtain ⟨rfl, rfl⟩ := Scan.token.inj h
                rfl
          · rw [if_neg hdoctype] at h
            exact absurd h (by simp)
        next hs' => exact absurd hs' (by simp)
      next hs => exact absurd hs (by simp)

theorem scanMarkup_more {body rest : Text} {t : Token} (h : scanMarkup body = .token t rest) :
    scanMarkup (body ++ x) = .token t (rest ++ x) := by
  unfold scanMarkup at h ⊢
  split at h
  next => exact absurd h (by simp)
  next body => exact scanBang_more x h _
  next body =>
    simp only [List.cons_append]
    cases hcut : cutMarked endsInstruction [] ('?' :: body) with
    | none => simp [hcut] at h
    | some cut =>
        have hmore := cutMarked_more x hcut
        rw [List.cons_append] at hmore
        simp only [hcut, hmore] at h ⊢
        split_ifs at h ⊢
        obtain ⟨rfl, rfl⟩ := Scan.token.inj h
        rfl
  next name =>
    simp only [List.cons_append]
    cases hcut : cutTag none name with
    | none => simp [hcut] at h
    | some cut =>
        simp only [hcut, cutTag_more x hcut] at h ⊢
        obtain ⟨rfl, rfl⟩ := Scan.token.inj h
        rfl
  next hne hbang hquery hslash =>
    cases hcut : cutTag none body with
    | none => simp [hcut] at h
    | some cut =>
        simp only [hcut] at h
        have hmore := cutTag_more x hcut
        obtain ⟨c, cs, rfl⟩ := List.exists_cons_of_ne_nil hne
        rw [List.cons_append] at hmore ⊢
        split
        next heq => exact absurd heq (by simp)
        next heq => exact absurd (by rw [(List.cons.inj heq).1]) (hbang cs)
        next heq => exact absurd (by rw [(List.cons.inj heq).1]) (hquery cs)
        next heq => exact absurd (by rw [(List.cons.inj heq).1]) (hslash cs)
        next =>
          simp only [hmore]
          split_ifs at h ⊢ <;>
            (obtain ⟨rfl, rfl⟩ := Scan.token.inj h; rfl)

/-- **More text behind a piece leaves it as it is**, unless it is a run of text up to the end. -/
theorem scan_more {s rest : Text} {t : Token} (h : scan s = .token t rest) :
    scan (s ++ x) = .token t (rest ++ x) ∨ t = .text s ∧ rest = [] ∧ s ≠ [] ∧ '<' ∉ s := by
  cases s with
  | nil => exact absurd h (by simp [scan])
  | cons c s =>
      by_cases hc : c = '<'
      · subst hc
        exact .inl (scanMarkup_more x h)
      · rw [scan_cons hc] at h
        obtain ⟨rfl, rfl⟩ := Scan.token.inj h
        -- the run of text ends at a bracket, or at the end
        have hcut := List.takeWhile_append_dropWhile (p := (· != '<')) (l := s)
        have hrun : '<' ∉ c :: s.takeWhile (· != '<') := by
          intro hmem
          rcases List.mem_cons.mp hmem with heq | hmem
          · exact hc heq.symm
          · exact absurd (List.mem_takeWhile_imp hmem) (by decide)
        cases hrest : s.dropWhile (· != '<') with
        | nil =>
            rw [hrest, List.append_nil] at hcut
            rw [hcut] at hrun ⊢
            exact .inr ⟨rfl, rfl, List.cons_ne_nil c s, hrun⟩
        | cons d rest =>
            have hd : d = '<' := by
              have hhead := List.head?_dropWhile_not (· != '<') s
              rw [hrest] at hhead
              simpa using hhead
            subst hd
            rw [hrest] at hcut
            left
            have hscan := scan_text (List.cons_ne_nil c _) hrun (rest ++ x)
            rw [show c :: s ++ x = (c :: s.takeWhile (· != '<')) ++ '<' :: (rest ++ x) by
              conv_lhs => rw [← hcut]
              simp]
            exact hscan

end

/-! ## §4. One text after another. -/

/-- **A run of text is taken in two parts alike.** -/
theorem take_text_append {b b' : Build} {s : Text} (h : b.take (.text s) = .ok b') (t : Text)
    (c : Build) : b.take (.text (s ++ t)) = .ok c ↔ b'.take (.text t) = .ok c := by
  cases hs : unescape s with
  | error f => simp [Build.take, hs] at h
  | ok u =>
      simp only [Build.take, hs] at h
      have hadd : ∀ v, b.addText (u ++ v) = b'.addText v := by
        intro v
        rw [Build.addText_append, h]
        rfl
      -- a reference never goes over the cut, because what is before it can be read
      have happend := unescape_append hs t
      cases ht : unescape t with
      | error f =>
          have hnone : ∀ w, unescape (s ++ t) ≠ .ok w := by
            intro w hw
            obtain ⟨v, hv, -⟩ := (happend w).mp hw
            rw [ht] at hv
            exact absurd hv (by simp)
          simp only [Build.take, ht]
          cases hst : unescape (s ++ t) with
          | error f' => simp
          | ok w => exact absurd hst (hnone w)
      | ok v =>
          have hst : unescape (s ++ t) = .ok (u ++ v) := (happend _).mpr ⟨v, ht, rfl⟩
          simp only [Build.take, ht, hst, hadd]

/-- A run of text up to the end goes on with the text behind it. -/
theorem reaches_text_append {b b' : Build} {s : Text} (hne : s ≠ []) (hs : '<' ∉ s)
    (h : b.take (.text s) = .ok b') (x : Text) (d : Build) :
    Reaches b (s ++ x) d ↔ Reaches b' x d := by
  -- what follows is itself a run of text up to a bracket or to the end, maybe an empty one
  obtain ⟨v, y, rfl, hv, hy⟩ : ∃ v y : Text, x = v ++ y ∧ '<' ∉ v ∧ (y = [] ∨ ∃ y', y = '<' :: y') := by
    refine ⟨x.takeWhile (· != '<'), x.dropWhile (· != '<'),
      List.takeWhile_append_dropWhile.symm, ?_, ?_⟩
    · intro hmem
      exact absurd (List.mem_takeWhile_imp hmem) (by decide)
    · cases hrest : x.dropWhile (· != '<') with
      | nil => exact .inl rfl
      | cons c y =>
          have hhead := List.head?_dropWhile_not (· != '<') x
          rw [hrest] at hhead
          exact .inr ⟨y, by simpa using hhead⟩
  have hscan : ∀ {r : Text}, r ≠ [] → '<' ∉ r → scan (r ++ y) = .token (.text r) y := by
    intro r hr hmem
    rcases hy with rfl | ⟨y', rfl⟩
    · rw [List.append_nil]
      exact scan_text_end hr hmem
    · exact scan_text hr hmem y'
  by_cases hnil : v = []
  · subst hnil
    rw [List.nil_append, reaches_iff_take (hscan hne hs), h]
    simp
  · have hsv : scan (s ++ (v ++ y)) = .token (.text (s ++ v)) y := by
      rw [← List.append_assoc]
      exact hscan (by simp [hne]) (by simp [hs, hv])
    rw [reaches_iff_take hsv, reaches_iff_take (hscan hnil hv)]
    simp only [take_text_append h v]

/-- **BEHIND A TEXT THAT WAS READ ANOTHER ONE IS READ AS IF IT BEGAN THERE.** -/
theorem Reaches.append_iff {b c : Build} {s : Text} (h : Reaches b s c) (x : Text) (d : Build) :
    Reaches b (s ++ x) d ↔ Reaches c x d := by
  induction h with
  | done => rfl
  | token scanned taken further ih =>
      -- the last piece may be a run of text, which does not end where the text ends
      rcases scan_more x scanned with hmore | ⟨rfl, rfl, hne, hs⟩
      · rw [reaches_iff_take hmore, taken, ← ih]
        simp
      · rw [← reaches_nil.mp further]
        exact reaches_text_append hne hs taken x d

theorem Reaches.append {b c d : Build} {s x : Text} (h : Reaches b s c) (hx : Reaches c x d) :
    Reaches b (s ++ x) d :=
  (h.append_iff x d).mpr hx

/-! ## §5. Pieces that were written. -/

theorem reaches_piece {p : Piece} (h : p.Legible) {b c : Build} (hstep : b.step p = .ok c) :
    Reaches b p.markup c := by
  -- only text has no mark at its end, and text that is empty is no piece
  by_cases hmark : p.IsMark
  · have hscan := scan_piece hmark h []
    rw [List.append_nil] at hscan
    rw [b.step_mark p hmark] at hstep
    exact .token hscan hstep .done
  · cases p with
    | text t =>
        rw [Build.step_text] at hstep
        by_cases ht : t = []
        · rw [if_pos ht] at hstep
          obtain rfl := Except.ok.inj hstep
          subst ht
          exact .done
        · rw [if_neg ht, ← b.take_escapeText] at hstep
          have hne : escapeText t ≠ [] := fun hnil => ht (escapeText_eq_nil.mp hnil)
          exact .token (scan_text_end hne (not_mem_escapeText (.inl rfl) t)) hstep .done
    | cdata t => exact absurd trivial hmark
    | comment t => exact absurd trivial hmark
    | instruction t => exact absurd trivial hmark
    | start label attrs => exact absurd trivial hmark
    | empty label attrs => exact absurd trivial hmark
    | close label => exact absurd trivial hmark

/-- **The markup of pieces leads to what their run comes to.** -/
theorem reaches_markups : ∀ {ps : List Piece}, (∀ p ∈ ps, p.Legible) → ∀ {b c : Build},
    b.run ps = .ok c → Reaches b (markups ps) c
  | [], _, b, c, hrun => by
      obtain rfl := Except.ok.inj hrun
      exact .done
  | p :: ps, h, b, c, hrun => by
      rw [Build.run_cons] at hrun
      rw [markups_cons]
      cases hstep : b.step p with
      | error cause =>
          rw [hstep] at hrun
          exact absurd hrun nofun
      | ok b' =>
          rw [hstep] at hrun
          exact (reaches_piece (h p List.mem_cons_self) hstep).append
            (reaches_markups (fun q hq => h q (List.mem_cons_of_mem p hq)) hrun)

end Crosswalk.Markup
