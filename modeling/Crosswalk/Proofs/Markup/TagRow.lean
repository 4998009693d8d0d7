/-
  Crosswalk.Proofs.Markup.TagRow
  ──────────────────────────────────────
  **READING ON FROM ANY BRACKET.**

  A piece that begins with a bracket ends with one, and it is a piece whatever
  is behind it (`exists_front_of_scan`).  So a quote that somebody opened ends
  behind a bracket too, maybe one of those in the markup of other elements.
  That markup is tags without quotes, and texts between them (`tags_markupIn`),
  and behind any of its brackets there are such tags again (`Tags.behind`):

    • `Build.Named.take`: pieces that were scanned open no elements but those
      with the name of a start tag,
    • `Tags.pass`: tags are read up to what is behind them.
-/
import Crosswalk.Proofs.Markup.Complete

namespace Crosswalk.Markup

variable {b b' c : Build} {s s' rest w : Text} {t : Token} {es : List Element}

/-! ## §1. The front of a text. -/

theorem cutTag_front : ∀ {s w : Text} {quote : Option Char}, cutTag quote s = some (w, rest) →
    s = w ++ '>' :: rest ∧ cutTag quote (w ++ ['>']) = some (w, []) := by
  intro s
  induction s with
  | nil => intro w quote h; cases h
  | cons c s ih =>
      intro w quote h
      unfold cutTag at h
      split at h
      next hend =>
        obtain ⟨rfl, rfl⟩ := hend
        obtain ⟨rfl, rfl⟩ := Prod.mk.inj (Option.some.inj h)
        exact ⟨rfl, rfl⟩
      next hend =>
        obtain ⟨⟨w', rest'⟩, hcut, heq⟩ := Option.map_eq_some_iff.mp h
        obtain ⟨rfl, rfl⟩ := Prod.mk.inj heq
        obtain ⟨rfl, hfront⟩ := ih hcut
        refine ⟨rfl, ?_⟩
        rw [List.cons_append]
        unfold cutTag
        rw [if_neg hend]
        exact Option.map_eq_some_iff.mpr ⟨_, hfront, rfl⟩

theorem cutNested_front : ∀ {s w : Text} {depth : Nat}, cutNested depth s = some (w, rest) →
    s = w ++ '>' :: rest ∧ cutNested depth (w ++ ['>']) = some (w, []) := by
  intro s
  induction s with
  | nil => intro w depth h; cases h
  | cons c s ih =>
      intro w depth h
      rw [cutNested] at h
      split at h
      next hend =>
        obtain ⟨rfl, rfl⟩ := hend
        obtain ⟨rfl, rfl⟩ := Prod.mk.inj (Option.some.inj h)
        exact ⟨rfl, rfl⟩
      next hend =>
        obtain ⟨⟨w', rest'⟩, hcut, heq⟩ := Option.map_eq_some_iff.mp h
        obtain ⟨rfl, rfl⟩ := Prod.mk.inj heq
        obtain ⟨rfl, hfront⟩ := ih hcut
        refine ⟨rfl, ?_⟩
        rw [List.cons_append, cutNested, if_neg hend]
        exact Option.map_eq_some_iff.mpr ⟨_, hfront, rfl⟩

theorem cutMarked_front {stop : Text → Bool} : ∀ {s w seen : Text},
    cutMarked stop seen s = some (w, rest) →
      ∃ y, s = y ++ '>' :: rest ∧ cutMarked stop seen (y ++ ['>']) = some (w, []) := by
  intro s
  induction s with
  | nil => intro w seen h; cases h
  | cons c s ih =>
      intro w seen h
      rw [cutMarked] at h
      split at h
      next hend =>
        obtain ⟨rfl, rfl⟩ := Prod.mk.inj (Option.some.inj h)
        refine ⟨[], by rw [hend.1]; rfl, ?_⟩
        rw [List.nil_append, cutMarked, if_pos ⟨rfl, hend.2⟩]
      next hend =>
        obtain ⟨y, rfl, hfront⟩ := ih h
        refine ⟨c :: y, rfl, ?_⟩
        rw [List.cons_append, cutMarked, if_neg hend]
        exact hfront

theorem scanBang_doctype {c : Char} (hc : c = 'D' ∨ c = 'd') (whole s : Text) :
    scanBang whole ('!' :: c :: s) = match cutNested 0 ('!' :: c :: s) with
      | none => .fault .unclosedDoctype whole
      | some (inner, rest) =>
        if !startsWithAnyCase "!DOCTYPE".toList inner then .fault .unclosedDoctype whole
        else if (inner.drop 8).all isSpace then .fault .unnamedDoctype ('>' :: rest)
        else .token .aside rest := by
  rcases hc with rfl | rfl <;> rfl

theorem scanBang_front {whole : Text} (h : scanBang whole ('!' :: s) = .token t rest) :
    ∃ y, s = y ++ '>' :: rest ∧ ∀ whole', scanBang whole' ('!' :: (y ++ ['>'])) = .token t [] := by
  unfold scanBang at h
  simp only [List.drop_succ_cons, List.drop_zero] at h
  split at h
  next s =>
    cases hcut : cutMarked endsSection [] ('!' :: '[' :: s) with
    | none => simp [hcut] at h
    | some cut =>
        simp only [hcut] at h
        split_ifs at h with hlead
        obtain ⟨rfl, rfl⟩ := Scan.token.inj h
        obtain ⟨y, hy, hfront⟩ := cutMarked_front hcut
        obtain ⟨y, rfl, hs⟩ := Text.cut_of_not_mem_left (a := ['!', '[']) (by decide) hy
        refine ⟨'[' :: y, congrArg (List.cons '[') hs, fun whole' => ?_⟩
        show (match cutMarked endsSection [] (['!', '['] ++ y ++ ['>']) with
          | none => _
          | some (inner, rest) => _) = _
        rw [hfront]
        exact if_pos hlead
  next s =>
    cases hcut : cutMarked endsComment [] ('!' :: '-' :: s) with
    | none => simp [hcut] at h
    | some cut =>
        simp only [hcut] at h
        split_ifs at h with hlead
        obtain ⟨rfl, rfl⟩ := Scan.token.inj h
        obtain ⟨y, hy, hfront⟩ := cutMarked_front hcut
        obtain ⟨y, rfl, hs⟩ := Text.cut_of_not_mem_left (a := ['!', '-']) (by decide) hy
        refine ⟨'-' :: y, congrArg (List.cons '-') hs, fun whole' => ?_⟩
        show (match cutMarked endsComment [] (['!', '-'] ++ y ++ ['>']) with
          | none => _
          | some (inner, rest) => _) = _
        rw [hfront]
        exact if_pos hlead
  next c s _ _ =>
    split_ifs at h with hdoctype
    cases hcut : cutNested 0 ('!' :: c :: s) with
    | none => simp [hcut] at h
    | some cut =>
        simp only [hcut] at h
        split_ifs at h with hname hblank
        obtain ⟨rfl, rfl⟩ := Scan.token.inj h
        obtain ⟨inner, rest⟩ := cut
        obtain ⟨hy, hfront⟩ := cutNested_front hcut
        have hc : '>' ∉ ['!', c] := by rcases hdoctype with rfl | rfl <;> decide
        obtain ⟨y, rfl, hs⟩ := Text.cut_of_not_mem_left (a := ['!', c]) hc hy
        refine ⟨c :: y, congrArg (List.cons c) hs, fun whole' => ?_⟩
        have hfront' : cutNested 0 ('!' :: c :: (y ++ ['>'])) = some (['!', c] ++ y, []) := hfront
        rw [List.cons_append, scanBang_doctype hdoctype, hfront']
        simp only [hname, hblank]
        rfl
  next => cases h

/-- What does not begin like another piece is a tag. -/
theorem head?_of_ne (hbang : ∀ s', s ≠ '!' :: s') (hquery : ∀ s', s ≠ '?' :: s')
    (hslash : ∀ s', s ≠ '/' :: s') : ∀ c ∈ s.head?, c ∉ ['!', '?', '/'] := by
  intro c hc hmem
  obtain ⟨s', rfl⟩ := List.head?_eq_some_iff.mp hc
  simp only [List.mem_cons, List.not_mem_nil, or_false] at hmem
  rcases hmem with rfl | rfl | rfl
  · exact hbang s' rfl
  · exact hquery s' rfl
  · exact hslash s' rfl

/-- **A piece that begins with a bracket ends with one**, and what is behind it does not matter. -/
theorem exists_front_of_scan (h : scan ('<' :: s) = .token t rest) :
    ∃ y, s = y ++ '>' :: rest ∧ scan ('<' :: (y ++ ['>'])) = .token t [] := by
  change scanMarkup s = _ at h
  show ∃ y, s = y ++ '>' :: rest ∧ scanMarkup (y ++ ['>']) = .token t []
  unfold scanMarkup at h
  split at h
  next => cases h
  next =>
    obtain ⟨y, rfl, hfront⟩ := scanBang_front h
    exact ⟨'!' :: y, rfl, hfront _⟩
  next s =>
    cases hcut : cutMarked endsInstruction [] ('?' :: s) with
    | none => simp [hcut] at h
    | some cut =>
        simp only [hcut] at h
        split_ifs at h with hlong
        obtain ⟨rfl, rfl⟩ := Scan.token.inj h
        obtain ⟨y, hy, hfront⟩ := cutMarked_front hcut
        obtain ⟨y, rfl, hs⟩ := Text.cut_of_not_mem_left (a := ['?']) (by decide) hy
        refine ⟨'?' :: y, congrArg (List.cons '?') hs, ?_⟩
        show (match cutMarked endsInstruction [] (['?'] ++ y ++ ['>']) with
          | none => _
          | some (inner, rest) => _) = _
        rw [hfront]
        exact if_pos hlong
  next s =>
    cases hcut : cutTag none s with
    | none => simp [hcut] at h
    | some cut =>
        simp only [hcut] at h
        obtain ⟨rfl, rfl⟩ := Scan.token.inj h
        obtain ⟨rfl, hfront⟩ := cutTag_front hcut
        refine ⟨'/' :: cut.1, rfl, ?_⟩
        show (match cutTag none (cut.1 ++ ['>']) with
          | none => _
          | some (inner, rest) => Scan.token (.close inner) rest) = _
        rw [hfront]
  next hne hbang hquery hslash =>
    cases hcut : cutTag none s with
    | none => simp [hcut] at h
    | some cut =>
        obtain ⟨inner, rest⟩ := cut
        simp only [hcut] at h
        obtain ⟨hs, hfront⟩ := cutTag_front hcut
        have hhead : ∀ c ∈ (inner ++ ['>']).head?, c ∉ ['!', '?', '/'] := by
          intro c hc
          refine head?_of_ne hbang hquery hslash c ?_
          rw [hs]
          cases inner with
          | nil => exact hc
          | cons d inner => exact hc
        refine ⟨inner, ?_, ?_⟩
        · split_ifs at h <;>
            (obtain ⟨rfl, rfl⟩ := Scan.token.inj h; exact hs)
        · show scan ('<' :: (inner ++ ['>'])) = _
          rw [scan_of_cutTag hhead hfront]
          split_ifs at h ⊢ <;>
            (obtain ⟨rfl, rfl⟩ := Scan.token.inj h; rfl)

/-! ## §2. Whole pieces. -/

/-- The text is a row of whole pieces. -/
inductive IsCut : Text → Prop
  | nil : IsCut []
  | cons {s rest : Text} {t : Token} (scanned : scan s = .token t rest) (further : IsCut rest) :
      IsCut s

theorem IsCut.behind (h : IsCut s) (hs : scan s = .token t rest) : IsCut rest := by
  cases h with
  | nil => cases hs
  | cons scanned further =>
      obtain ⟨-, rfl⟩ := Scan.token.inj (hs.symm.trans scanned)
      exact further

/-- A bracket behind a text ends the run of text before it. -/
theorem scan_bracket (hs : scan s = .token t rest) (x : Text) :
    scan (s ++ '<' :: x) = .token t (rest ++ '<' :: x) := by
  rcases scan_more ('<' :: x) hs with hmore | ⟨rfl, rfl, hne, hrun⟩
  · exact hmore
  · exact scan_text hne hrun x

/-! ## §3. Texts and tags without quotes. -/

/-- A text that is one whole tag between brackets, of whatever kind. -/
structure IsPlainTag (w : Text) : Prop where
  plain : ∀ c ∈ w, c ∉ ['>', '"', '\'']
  nonempty : w ≠ []
  head : ∀ c ∈ w.head?, c ∉ ['!', '?']

theorem IsPlainTag.scan (h : IsPlainTag w) (rest : Text) :
    ∃ t, scan ('<' :: (w ++ '>' :: rest)) = .token t rest := by
  have hsealed : ∀ {v : Text}, (∀ c ∈ v, c ∈ w) → Sealed v := by
    intro v hv
    exact sealed_of_plain fun c hc => by simpa using h.plain c (hv c hc)
  obtain ⟨c, w, rfl⟩ := List.exists_cons_of_ne_nil h.nonempty
  by_cases hslash : c = '/'
  · subst hslash
    have hcut := (hsealed (v := w) fun c hc => List.mem_cons_of_mem _ hc).cutTag_eq rest
    rw [List.cons_append, scan_close, hcut]
    exact ⟨_, rfl⟩
  · have hhead : ∀ d ∈ (c :: w).head?, d ∉ ['!', '?', '/'] := by
      intro d hd
      obtain rfl : c = d := Option.some.inj hd
      have hother := h.head c rfl
      simp only [List.mem_cons, List.not_mem_nil, or_false, not_or] at hother ⊢
      exact ⟨hother.1, hother.2, hslash⟩
    rw [scan_sealed (hsealed fun _ hc => hc) h.nonempty hhead]
    split
    next => exact ⟨_, rfl⟩
    next => exact ⟨_, rfl⟩

/-- Tags with texts before them, and no bracket anywhere else. -/
inductive Tags : Text → Prop
  | nil : Tags []
  | cons {u w s : Text} (opening : '<' ∉ u) (closing : '>' ∉ u) (tag : IsPlainTag w)
      (further : Tags s) : Tags (u ++ '<' :: (w ++ '>' :: s))

namespace Tags

theorem tag (hw : IsPlainTag w) (hs : Tags s) : Tags ('<' :: (w ++ '>' :: s)) :=
  @cons [] w s (by simp) (by simp) hw hs

theorem append (hs : Tags s) (hs' : Tags s') : Tags (s ++ s') := by
  induction hs with
  | nil => exact hs'
  | @cons u w s opening closing tag _ ih =>
      have hcons := Tags.cons opening closing tag ih
      simpa using hcons

/-- Text before tags belongs to the first one. -/
theorem text {u : Text} (ho : '<' ∉ u) (hc : '>' ∉ u) (hs : Tags s) (hne : s ≠ []) :
    Tags (u ++ s) := by
  cases hs with
  | nil => exact absurd rfl hne
  | @cons v w s opening closing tag further =>
      have hcons := @Tags.cons (u ++ v) w s (by simp [ho, opening]) (by simp [hc, closing]) tag
        further
      simpa using hcons

/-- **Behind a closing bracket there are tags again.** -/
theorem behind {x y : Text} (h : Tags s) (hs : s = x ++ '>' :: y) : Tags y := by
  induction h generalizing x with
  | nil => exact absurd hs (by simp)
  | @cons u w s opening closing tag further ih =>
      have hfront : '>' ∉ u ++ '<' :: w := by
        have hw : '>' ∉ w := fun hmem => tag.plain _ hmem (by simp)
        simp [closing, hw]
      have hcut : (u ++ '<' :: w) ++ '>' :: s = x ++ '>' :: y := by
        rw [← hs]
        simp
      obtain ⟨x₁, rfl, hrest⟩ := Text.cut_of_not_mem_left hfront hcut
      cases x₁ with
      | nil =>
          rw [List.nil_append] at hrest
          rw [← (List.cons.inj hrest).2]
          exact further
      | cons d x₁ => exact ih (List.cons.inj hrest).2

end Tags

/-- The name of a tag is a tag, and so it is with a slash on one of its sides. -/
theorem isPlainTag_of_isTagName {tag : Text} (h : IsTagName tag) :
    IsPlainTag tag ∧ IsPlainTag (tag ++ ['/']) ∧ IsPlainTag ('/' :: tag) := by
  have hplain : ∀ c ∈ tag, c ∉ ['>', '"', '\''] := fun c hc =>
    not_mem_of_isTagChar (h.2 c hc) (by decide)
  have hhead : ∀ c ∈ tag.head?, c ∉ ['!', '?'] := fun c hc =>
    not_mem_of_isTagChar (h.2 c (List.mem_of_head? hc)) (by decide)
  have hslash : ∀ {c : Char}, c = '/' → c ∉ ['>', '"', '\''] := by
    rintro c rfl
    decide
  refine ⟨⟨hplain, h.1, hhead⟩, ⟨?_, by simp, ?_⟩, ⟨?_, by simp, ?_⟩⟩
  · intro c hc
    rcases List.mem_append.mp hc with hc | hc
    · exact hplain c hc
    · exact hslash (List.mem_singleton.mp hc)
  · obtain ⟨d, tag, rfl⟩ := List.exists_cons_of_ne_nil h.1
    exact hhead
  · intro c hc
    rcases List.mem_cons.mp hc with hc | hc
    · exact hslash hc
    · exact hplain c hc
  · intro c hc
    obtain rfl : '/' = c := Option.some.inj hc
    decide

theorem tags_markupsIn (h : ∀ e ∈ es, Tags (markupIn [] e)) : Tags (markupsIn [] es) := by
  induction es with
  | nil => exact .nil
  | cons e es ih =>
      exact (h e List.mem_cons_self).append (ih fun d hd => h d (List.mem_cons_of_mem e hd))

/-- **The markup of a uniform tree** is tags without quotes, and texts between them. -/
theorem tags_markupIn {e : Element} (he : Uniform none e) : Tags (markupIn [] e) := by
  induction he with
  | @intro name children text hname _ ih =>
      have htag : IsTagName (qualify [] name) := isTagName_qualify (.inl rfl) hname
      obtain ⟨hstart, hempty, hclose⟩ := isPlainTag_of_isTagName htag
      rw [markupIn]
      cases hcontent : contentOf text children (markupsIn [] children) with
      | none =>
          have hone := Tags.tag hempty .nil
          simpa [markupOf, tagBody] using hone
      | some inner =>
          have hend : Tags ('<' :: ('/' :: qualify [] name ++ '>' :: [])) := .tag hclose .nil
          have hinner : Tags (escapeText (text.getD []) ++ (markupsIn [] children
              ++ '<' :: ('/' :: qualify [] name ++ '>' :: []))) :=
            .text (not_mem_escapeText (.inl rfl) _) (not_mem_escapeText (.inr rfl) _)
              ((tags_markupsIn ih).append hend) (by simp)
          have hwhole := Tags.tag hstart hinner
          rw [eq_of_contentOf_eq_some hcontent]
          simpa [markupOf, tagBody] using hwhole

/-! ## §4. Names of open elements. -/

/-- The name of every open element could be that of a start tag. -/
def Build.Named (b : Build) : Prop :=
  ∀ name ∈ b.frames.map Frame.name,
    (∀ c ∈ name, isSpace c = false) ∧ ∀ c ∈ name.head?, c ∉ ['!', '?', '/']

theorem named_initial : Build.initial.Named := nofun

theorem head?_cutTag {body : Text} (h : cutTag none s = some (body, rest)) :
    ∀ c ∈ body.head?, c ∈ s.head? := by
  obtain ⟨rfl, -⟩ := cutTag_front h
  intro c hc
  obtain ⟨body, rfl⟩ := List.head?_eq_some_iff.mp hc
  rfl

/-- What the scanner takes for a start tag does not begin like another piece. -/
theorem head?_of_scan_start {body : Text} (h : scan s = .token (.start body) rest) :
    ∀ c ∈ body.head?, c ∉ ['!', '?', '/'] := by
  cases s with
  | nil => cases h
  | cons d s =>
      by_cases hd : d = '<'
      · subst hd
        change scanMarkup s = _ at h
        unfold scanMarkup scanBang at h
        split at h
        next => cases h
        next =>
          repeat' split at h
          all_goals cases h
        next =>
          repeat' split at h
          all_goals cases h
        next =>
          split at h
          all_goals cases h
        next hne hbang hquery hslash =>
          split at h
          next => cases h
          next inner _ hcut =>
            split at h
            next => cases h
            next =>
              cases h
              exact fun c hc => head?_of_ne hbang hquery hslash c (head?_cutTag hcut c hc)
      · rw [scan_cons hd] at h
        cases h

/-- Complete elements and texts change no names. -/
theorem names_add {e : Element} (h : b.add e = .ok c) :
    c.frames.map Frame.name = b.frames.map Frame.name := by
  obtain ⟨frames, root⟩ := b
  cases frames with
  | cons f fs => exact Except.ok.inj h ▸ rfl
  | nil =>
      cases root with
      | none => exact Except.ok.inj h ▸ rfl
      | some r => cases h

theorem names_addText {u : Text} (h : b.addText u = .ok c) :
    c.frames.map Frame.name = b.frames.map Frame.name := by
  obtain ⟨frames, root⟩ := b
  cases frames with
  | cons f fs => exact Except.ok.inj h ▸ rfl
  | nil =>
      unfold Build.addText at h
      simp only at h
      split at h
      next => exact Except.ok.inj h ▸ rfl
      next => cases h

/-- **A piece that was scanned opens no other names.** -/
theorem Build.Named.take (hb : b.Named) (hs : scan s = .token t rest) (ht : b.take t = .ok c) :
    c.Named := by
  cases takes_iff.mp ht with
  | aside => exact hb
  | text _ added =>
      unfold Build.Named
      rw [names_addText added]
      exact hb
  | «section» added =>
      unfold Build.Named
      rw [names_addText added]
      exact hb
  | @start body f opened =>
      obtain ⟨attrs, ns, -, -, rfl⟩ := openElement_eq_ok.mp opened
      intro name hname
      rcases List.mem_cons.mp hname with rfl | hname
      · refine ⟨fun d hd => by simpa using List.mem_takeWhile_imp hd, fun d hd => ?_⟩
        have hbody : d ∈ body.head? := by
          have hhead : (tagName body).head? = body.head?.filter (fun c => !isSpace c) :=
            List.head?_takeWhile
          rw [frameOf, hhead] at hd
          exact (Option.mem_filter_iff.mp hd).1
        exact head?_of_scan_start hs d hbody
      · exact hb name hname
  | empty _ added =>
      unfold Build.Named
      rw [names_add added]
      exact hb
  | close innermost _ added =>
      unfold Build.Named
      rw [names_add added]
      intro name hname
      exact hb name (by rw [innermost]; exact List.mem_cons_of_mem _ hname)

/-- **Tags between open elements are read up to what is behind them.** -/
theorem Tags.pass (h : Tags s) (x : Text) {b : Build} (hb : b.Named)
    (hs : Completes b (s ++ '<' :: x)) : ∃ b' : Build, b'.Named ∧ Completes b' ('<' :: x) := by
  induction h generalizing b with
  | nil => exact ⟨b, hb, hs⟩
  | @cons u w s opening _ tag _ ih =>
      obtain ⟨t, hscan⟩ := tag.scan (s ++ '<' :: x)
      have hwhole : u ++ '<' :: (w ++ '>' :: s) ++ '<' :: x
          = u ++ '<' :: (w ++ '>' :: (s ++ '<' :: x)) := by simp
      rw [hwhole] at hs
      -- with or without a text before it, the tag is one piece
      have hbehind : ∀ {b : Build}, b.Named → Completes b ('<' :: (w ++ '>' :: (s ++ '<' :: x))) →
          ∃ b' : Build, b'.Named ∧ Completes b' ('<' :: x) := by
        intro b hb hs
        obtain ⟨b', htake, hrest⟩ := (completes_iff_take hscan).mp hs
        exact ih (hb.take hscan htake) hrest
      by_cases hu : u = []
      · subst hu
        exact hbehind hb hs
      · have htext := scan_text hu opening (w ++ '>' :: (s ++ '<' :: x))
        obtain ⟨b', htake, hrest⟩ := (completes_iff_take htext).mp hs
        exact hbehind (hb.take htext htake) hrest

end Crosswalk.Markup
