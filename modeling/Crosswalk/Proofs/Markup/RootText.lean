/-
  Crosswalk.Proofs.Markup.RootText
  ──────────────────────────────────────
  **WHICH TEXTS MAY STAND FOR THE NAME OF A ROOT.**

  The text that stands for the name of a root is in its start tag and in its
  end tag, with the markup of the children between them.  Nothing keeps it from
  ending the tag, or from opening a quote that only ends further on:

    • `read_documentOf_iff`: every text that gives a document around children
      encloses them, or has a piece that swallows them,
    • `read_documentOf_iff_of_isCut`: whole pieces swallow nothing,
    • `read_documentOf_iff_of_not_mem`: what both mean for a text without a
      closing bracket.
-/
import Crosswalk.Proofs.Markup.TagRow

namespace Crosswalk.Markup

variable {b c : Build} {s rest x : Text} {t : Token} {es : List Element}

/-! ## §1. Around other tags. -/

theorem Reaches.isCut (h : Reaches b s c) : IsCut s := by
  induction h with
  | done => exact .nil
  | token scanned _ _ ih => exact .cons scanned ih

/-- White space is only left out behind the name in an end tag. -/
theorem head?_closeName (s : Text) : (closeName s).head? = s.head? := by
  unfold closeName
  split
  next => rfl
  next hblank =>
    obtain ⟨front, hfront⟩ := List.dropWhile_suffix (l := s.reverse) isSpace
    have hne : s.reverse.dropWhile isSpace ≠ [] := by
      intro hnil
      exact hblank (List.all_eq_true.mpr fun c hc =>
        List.dropWhile_eq_nil_iff.mp hnil c (List.mem_reverse.mpr hc))
    have hlast : s.head? = (front ++ s.reverse.dropWhile isSpace).getLast? := by
      rw [hfront, List.getLast?_reverse]
    rw [List.head?_reverse, hlast, List.getLast?_append_of_ne_nil _ hne]

/-- What follows the bracket and the slash of an end tag that ends something is cut in the same way
behind a bracket alone. -/
theorem isCut_of_completes_close (hb : b.Named) (h : Completes b ('<' :: '/' :: s)) :
    IsCut ('<' :: s) := by
  obtain ⟨t, rest, b', hscan, htake, e, hrest⟩ := exists_token_of_completes h
  rw [scan_close] at hscan
  split at hscan
  next => cases hscan
  next inner behind hcut =>
    obtain ⟨rfl, rfl⟩ := Scan.token.inj hscan
    cases takes_iff.mp htake with
    | close innermost name _ =>
        have hname := hb _ (by rw [innermost]; exact List.mem_cons_self)
        have hhead : ∀ d ∈ s.head?, d ∉ ['!', '?', '/'] := by
          intro d hd
          rw [(cutTag_front hcut).1] at hd
          cases hinner : inner with
          | nil =>
              rw [hinner] at hd
              obtain rfl : '>' = d := Option.some.inj hd
              decide
          | cons d' inner' =>
              refine hname.2 d ?_
              rw [← name, head?_closeName, hinner]
              rw [hinner] at hd
              exact hd
        have htag := scan_of_cutTag hhead hcut
        split at htag
        next => exact .cons htag hrest.isCut
        next => exact .cons htag hrest.isCut

theorem markupsIn_append_eq_cons (pre : Text) (es : List Element) (s : Text) :
    ∃ s', markupsIn pre es ++ '<' :: s = '<' :: s' := by
  cases es with
  | nil => exact ⟨s, rfl⟩
  | cons e es =>
      obtain ⟨name, ns, decls, attrs, children, text⟩ := e
      obtain ⟨s', hs'⟩ := markupOf_eq_cons (qualify pre name) []
        (contentOf text children (markupsIn pre children))
      rw [markupsIn, markupIn, hs']
      exact ⟨_, rfl⟩

/-- A piece of a text is the same piece with children and a bracket behind the text. -/
theorem scan_children (hs : scan s = .token t rest) (es : List Element) (x : Text) :
    scan (s ++ (markupsIn [] es ++ '<' :: x))
      = .token t (rest ++ (markupsIn [] es ++ '<' :: x)) := by
  obtain ⟨x', hx'⟩ := markupsIn_append_eq_cons [] es x
  rw [hx']
  exact scan_bracket hs x'

/-- A piece that begins in the text ends with a bracket of what is behind, so it holds all of the
middle.  The pieces before it and after it are read up to a root alone. -/
inductive SwallowsFrom (middle behind : Text) : Build → Text → Prop
  | here {b b' : Build} {s rest : Text} {t : Token} (begins : s ≠ [])
      (scanned : scan (s ++ (middle ++ behind)) = .token t rest)
      (ends : '>' :: rest <:+ behind) (taken : b.take t = .ok b') (further : Completes b' rest) :
      SwallowsFrom middle behind b s
  | token {b b' : Build} {s rest : Text} {t : Token} (scanned : scan s = .token t rest)
      (taken : b.take t = .ok b') (further : SwallowsFrom middle behind b' rest) :
      SwallowsFrom middle behind b s

theorem SwallowsFrom.completes (h : SwallowsFrom (markupsIn [] es) ('<' :: x) b s) :
    Completes b (s ++ (markupsIn [] es ++ '<' :: x)) := by
  induction h with
  | here _ scanned _ taken further => exact (completes_iff_take scanned).mpr ⟨_, taken, further⟩
  | token scanned taken _ ih =>
      exact (completes_iff_take (scan_children scanned es x)).mpr ⟨_, taken, ih⟩

/-- Whole pieces swallow nothing. -/
theorem IsCut.not_swallowsFrom (h : IsCut s) :
    ∀ b, ¬ SwallowsFrom (markupsIn [] es) ('<' :: x) b s := by
  induction h with
  | nil =>
      intro b hswallows
      cases hswallows with
      | here begins _ _ _ _ => exact begins rfl
      | token scanned _ _ => cases scanned
  | @cons s rest t scanned _ ih =>
      intro b hswallows
      cases hswallows with
      | here _ scanned' ends _ _ =>
          -- the piece leaves all that is behind the text, which is too much
          obtain ⟨-, rfl⟩ := Scan.token.inj ((scan_children scanned es x).symm.trans scanned')
          have hlength := ends.length_le
          simp only [List.length_cons, List.length_append] at hlength
          omega
      | token scanned' _ further =>
          obtain ⟨-, rfl⟩ := Scan.token.inj (scanned.symm.trans scanned')
          exact ih _ further

/-- **A piece that does not end in a text swallows the tags behind it.**  If it ended among them,
the end tag would be read, but what is in the end tag makes no whole pieces. -/
theorem swallowsFrom_of_fault {f : TokenFault} {ahead : Text} (hes : ∀ e ∈ es, Uniform none e)
    (hb : b.Named) (hfault : scan s = .fault f ahead) (hcut : ¬ IsCut ('<' :: x))
    (h : Completes b (s ++ (markupsIn [] es ++ '<' :: '/' :: x))) :
    SwallowsFrom (markupsIn [] es) ('<' :: '/' :: x) b s := by
  obtain ⟨s₁, rfl⟩ : ∃ s₁, s = '<' :: s₁ := by
    cases s with
    | nil => cases hfault
    | cons d s₁ =>
        by_cases hd : d = '<'
        · exact ⟨s₁, by rw [hd]⟩
        · rw [scan_cons hd] at hfault
          cases hfault
  rw [List.cons_append] at h
  obtain ⟨t, rest, b', hscan, htake, hrest⟩ := exists_token_of_completes h
  obtain ⟨y, hy, hfront⟩ := exists_front_of_scan hscan
  rcases Text.cut_append hy with ⟨s₂, -, rfl⟩ | ⟨y₁, -, hy₁⟩
  · -- ending in the text it would be a piece of the text alone
    have hmore := scan_more s₂ hfront
    rcases hmore with hmore | ⟨-, -, -, hrun⟩
    · rw [List.cons_append, List.append_assoc] at hmore
      cases hfault.symm.trans hmore
    · exact absurd List.mem_cons_self hrun
  · rcases Text.cut_append hy₁ with ⟨m, rfl, hm⟩ | ⟨y₂, -, hy₂⟩
    · -- behind a bracket of the children there are tags up to the end tag
      have htags : Tags m := (tags_markupsIn fun e he => tags_markupIn (hes e he)).behind hm
      obtain ⟨b'', hb'', hclose⟩ := htags.pass _ (hb.take hscan htake) hrest
      exact absurd (isCut_of_completes_close hb'' hclose) hcut
    · exact .here (List.cons_ne_nil _ _) hscan ⟨y₂, hy₂.symm⟩ htake hrest

/-- **There are two ways around children**: the text before them leaves an element open that the end
tag behind them ends, or one of its pieces swallows them.  Where the text ends in the middle of a
piece, so does the end tag. -/
theorem completes_around_iff (hes : ∀ e ∈ es, Uniform none e) (hb : b.Named)
    (hcut : IsCut ('<' :: x) → IsCut s) :
    Completes b (s ++ (markupsIn [] es ++ '<' :: '/' :: x))
      ↔ (∃ c, Reaches b s c ∧ c.frames ≠ [] ∧ Completes c ('<' :: '/' :: x))
        ∨ SwallowsFrom (markupsIn [] es) ('<' :: '/' :: x) b s := by
  constructor
  · intro h
    -- through the text before the children, piece by piece as the reader goes
    fun_induction readFrom b s with
    | case1 b s scanned =>
        obtain rfl := eq_nil_of_scan scanned
        exact .inl ⟨b, .done, (completes_children .done hes x).mp h⟩
    | case2 b s scanned =>
        obtain rfl := eq_nil_of_scan scanned
        exact .inl ⟨b, .done, (completes_children .done hes x).mp h⟩
    | case3 b s f ahead scanned =>
        refine .inr (swallowsFrom_of_fault hes hb scanned (fun hwhole => ?_) h)
        cases hcut hwhole with
        | nil => cases scanned
        | cons scanned' _ => cases scanned.symm.trans scanned'
    | case4 b s t rest scanned cause refused =>
        -- the same piece is refused with the children behind it
        obtain ⟨b', taken, -⟩ := (completes_iff_take (scan_children scanned es _)).mp h
        cases refused.symm.trans taken
    | case5 b s t rest scanned b' taken _ ih =>
        obtain ⟨b'', taken', hrest⟩ := (completes_iff_take (scan_children scanned es _)).mp h
        obtain rfl := Except.ok.inj (taken.symm.trans taken')
        have hcut' : IsCut ('<' :: x) → IsCut rest := fun hwhole => (hcut hwhole).behind scanned
        rcases ih (hb.take scanned taken) hcut' hrest with ⟨c, hreach, hclose⟩ | hswallows
        · exact .inl ⟨c, .token scanned taken hreach, hclose⟩
        · exact .inr (.token scanned taken hswallows)
  · rintro (⟨c, hreach, hclose⟩ | hswallows)
    · exact (completes_children hreach hes x).mpr hclose
    · exact hswallows.completes

/-! ## §2. Roots. -/

/-- The document of a root, without the line before it. -/
def rootMarkup (s : Text) (es : List Element) : Text :=
  markupOf s [] (contentOf none es (markupsIn [] es))

theorem rootMarkup_nil (s : Text) : rootMarkup s [] = '<' :: (s ++ ['/', '>']) := by
  simp [rootMarkup, contentOf, markupOf, tagBody]

theorem rootMarkup_of_ne_nil (hne : es ≠ []) (s : Text) :
    rootMarkup s es = '<' :: (s ++ '>' :: (markupsIn [] es ++ '<' :: '/' :: (s ++ ['>']))) := by
  have hnil : escapeText [] = [] := rfl
  simp [rootMarkup, contentOf, markupOf, tagBody, hne, hnil]

/-- The text encloses what stands between its tags: in the place of the start tag it leaves an
element open, and in the place of the end tag it ends it. -/
def Encloses (s : Text) : Prop :=
  ∃ c, Reaches .initial ('<' :: (s ++ ['>'])) c ∧ c.frames ≠ []
    ∧ Completes c ('<' :: '/' :: (s ++ ['>']))

/-- The text swallows the children that stand between its tags: a piece that begins in the start tag
ends in the end tag. -/
def Swallows (s : Text) (es : List Element) : Prop :=
  SwallowsFrom (markupsIn [] es) ('<' :: '/' :: (s ++ ['>'])) .initial ('<' :: (s ++ ['>']))

/-- **A root around children** encloses them or swallows them. -/
theorem completes_rootMarkup_iff (hes : ∀ e ∈ es, Uniform none e) (hne : es ≠ []) :
    Completes .initial (rootMarkup s es) ↔ Encloses s ∨ Swallows s es := by
  have haround := completes_around_iff (s := '<' :: (s ++ ['>'])) hes named_initial id
  rw [rootMarkup_of_ne_nil hne]
  simpa [Encloses, Swallows] using haround

/-! ## §3. Roots without a closing bracket. -/

/-- A character other than the bracket belongs to the tag, whatever quote is open. -/
theorem cutTag_cons {c : Char} (hc : c ≠ '>') (quote : Option Char) : ∃ next, ∀ s,
    cutTag quote (c :: s) = (cutTag next s).map (fun (body, rest) => (c :: body, rest)) := by
  refine ⟨?next, fun s => ?body⟩
  case body =>
    have hend : ¬ (quote = none ∧ c = '>') := fun hend => hc hend.2
    rw [cutTag.eq_def]
    exact if_neg hend

/-- A text without a closing bracket is sealed when a tag can end behind it. -/
theorem sealed_of_cutTag {p : Text × Text} (hs : '>' ∉ s)
    (h : cutTag none (s ++ ['>']) = some p) : Sealed s := by
  -- the same is true of the text from any quote on
  have hfrom : ∀ {s : Text} {quote : Option Char} {p : Text × Text}, '>' ∉ s →
      cutTag quote (s ++ ['>']) = some p → ∀ x,
      cutTag quote (s ++ x) = (cutTag none x).map (fun (body, rest) => (s ++ body, rest)) := by
    intro s
    induction s with
    | nil =>
        intro quote p _ h x
        cases quote with
        | none => exact sealed_nil x
        | some q => cases h
    | cons c s ih =>
        intro quote p hs h x
        obtain ⟨hc, hs⟩ : c ≠ '>' ∧ '>' ∉ s := by simpa [eq_comm] using hs
        obtain ⟨next, hnext⟩ := cutTag_cons hc quote
        rw [List.cons_append, hnext] at h
        obtain ⟨p', hp', -⟩ := Option.map_eq_some_iff.mp h
        rw [List.cons_append, hnext, ih hs hp' x, Option.map_map]
        rfl
  exact fun x => hfrom hs h x

/-- The markup is the tag of one empty element, and the tag can be opened. -/
def IsOneTag (s : Text) : Prop :=
  ∃ body f, scan s = .token (.empty body) [] ∧ openElement body [] = .ok f

theorem IsOneTag.completes (h : IsOneTag s) : Completes .initial s := by
  obtain ⟨body, f, hscan, hopen⟩ := h
  exact (completes_iff_take hscan).mpr
    ⟨_, takes_iff.mpr (.empty hopen rfl), completes_nil.mpr ⟨_, rfl⟩⟩

theorem addText_initial {u : Text} (h : Build.initial.addText u = .ok c) : c = .initial := by
  unfold Build.addText Build.initial at h
  simp only at h
  split at h
  next => exact (Except.ok.inj h).symm
  next => cases h

/-- A document of one piece is the tag of an empty element. -/
theorem isOneTag_of_completes (hs : scan s = .token t []) (h : Completes .initial s) :
    IsOneTag s := by
  obtain ⟨b', htake, hrest⟩ := (completes_iff_take hs).mp h
  obtain ⟨e, rfl⟩ := completes_nil.mp hrest
  cases takes_iff.mp htake with
  | text _ added => cases addText_initial added
  | «section» added => cases addText_initial added
  | empty opened _ => exact ⟨_, _, hs, opened⟩
  | close innermost _ _ => cases innermost

/-- Without white space the whole text is the name of a tag without attributes, so only a prefix
keeps the tag from being opened. -/
theorem exists_openElement_iff (hspace : ∀ c ∈ s, isSpace c = false) :
    (∃ f, openElement s [] = .ok f) ↔ (splitQualified s).1 = [] := by
  have hname : tagName s = s := List.takeWhile_eq_self_iff.mpr (by simpa using hspace)
  have hattrs : tagAttributes s = .ok [] := by
    unfold tagAttributes
    rw [List.dropWhile_eq_nil_iff.mpr (by simpa using hspace)]
    exact readAttributes_write _ [] [] nofun List.nodup_nil nofun
  simp only [openElement_eq_ok, hattrs, hname]
  constructor
  · rintro ⟨f, attrs, ns, hattrs', hresolve, -⟩
    obtain rfl := Except.ok.inj hattrs'
    by_contra hpre
    have hnone : resolve? [] (splitQualified s).1 = none := if_neg (by simpa using hpre)
    exact absurd (hnone.symm.trans hresolve) (by simp)
  · intro hpre
    exact ⟨_, [], none, rfl, by rw [hpre]; rfl, rfl⟩

/-- Behind the last bracket there is nothing. -/
theorem eq_nil_of_last {a y : Text} (ha : '>' ∉ a) (h : a ++ ['>'] = y ++ '>' :: rest) :
    rest = [] := by
  obtain ⟨y₁, -, hlast⟩ := Text.cut_of_not_mem_left ha h
  have hlength := congrArg List.length hlast
  simp only [List.length_cons, List.length_nil, List.length_append] at hlength
  exact List.eq_nil_of_length_eq_zero (by omega)

/-- Only a start tag opens an element. -/
theorem exists_start_of_take (h : Build.initial.take t = .ok c) (hframes : c.frames ≠ []) :
    ∃ body f, t = .start body ∧ c = ⟨[f], none⟩ ∧ openElement body [] = .ok f := by
  cases takes_iff.mp h with
  | aside => exact absurd rfl hframes
  | text _ added => exact absurd (addText_initial added ▸ rfl) hframes
  | «section» added => exact absurd (addText_initial added ▸ rfl) hframes
  | start opened => exact ⟨_, _, rfl, rfl, opened⟩
  | empty _ added => exact absurd (Except.ok.inj added ▸ rfl) hframes
  | close innermost _ _ => cases innermost

/-- The end tag ends an element with its name. -/
theorem name_of_completes_close {f : Frame} {fs : List Frame} {root : Option Element}
    (hs : '>' ∉ s) (hlast : ∀ c ∈ s.getLast?, isSpace c = false)
    (h : Completes ⟨f :: fs, root⟩ ('<' :: '/' :: (s ++ ['>']))) : Sealed s ∧ f.name = s := by
  obtain ⟨t, rest, b', hscan, htake, -⟩ := exists_token_of_completes h
  rw [scan_close] at hscan
  split at hscan
  next => cases hscan
  next inner behind hcut =>
    have hsealed : Sealed s := sealed_of_cutTag hs hcut
    rw [hsealed.cutTag_eq] at hcut
    obtain ⟨rfl, rfl⟩ := Prod.mk.inj (Option.some.inj hcut)
    obtain ⟨rfl, rfl⟩ := Scan.token.inj hscan
    cases takes_iff.mp htake with
    | close innermost name _ =>
        obtain ⟨rfl, rfl⟩ := List.cons.inj innermost
        rw [closeName_of_getLast? hlast] at name
        exact ⟨hsealed, name.symm⟩

/-- **Without a closing bracket the text is one tag**, so it encloses children when it is that of a
start tag with neither white space nor a prefix. -/
theorem encloses_iff (hs : '>' ∉ s) (hnil : s ≠ []) (hlast : ∀ c ∈ s.getLast?, isSpace c = false) :
    Encloses s ↔ IsBody s ∧ (∀ c ∈ s, isSpace c = false) ∧ (splitQualified s).1 = [] := by
  constructor
  · rintro ⟨c, hreach, hframes, hclose⟩
    cases hreach with
    | token scanned taken further =>
        obtain ⟨y, hy, -⟩ := exists_front_of_scan scanned
        obtain rfl := eq_nil_of_last hs hy
        obtain rfl := reaches_nil.mp further
        obtain ⟨body, f, rfl, rfl, hopen⟩ := exists_start_of_take taken hframes
        obtain ⟨hsealed, hname⟩ := name_of_completes_close hs hlast hclose
        obtain ⟨hspace, hhead⟩ := named_initial.take scanned taken s
          (by rw [← hname]; exact List.mem_cons_self)
        have htag := scan_sealed hsealed hnil hhead []
        split at htag
        next => cases scanned.symm.trans htag
        next hslash =>
          obtain ⟨hbody, -⟩ := Scan.token.inj (scanned.symm.trans htag)
          obtain rfl := Token.start.inj hbody
          exact ⟨⟨hsealed, hnil, hhead, hslash⟩, hspace,
            (exists_openElement_iff hspace).mp ⟨_, hopen⟩⟩
  · rintro ⟨hbody, hspace, hpre⟩
    obtain ⟨f, hopen⟩ := (exists_openElement_iff hspace).mpr hpre
    have hname : f.name = s := by
      obtain ⟨attrs, ns, -, -, rfl⟩ := openElement_eq_ok.mp hopen
      exact List.takeWhile_eq_self_iff.mpr (by simpa using hspace)
    have hclose : scan ('<' :: '/' :: (s ++ ['>'])) = .token (.close s) [] := by
      rw [scan_close, hbody.sealed.cutTag_eq]
    have hend : closeName s = f.name := by rw [closeName_of_getLast? hlast, hname]
    refine ⟨⟨[f], none⟩, ?_, List.cons_ne_nil f [], ?_⟩
    · exact .token (hbody.scan_start []) (takes_iff.mpr (.start hopen)) .done
    · exact (completes_iff_take hclose).mpr
        ⟨_, takes_iff.mpr (.close rfl hend rfl), completes_nil.mpr ⟨_, rfl⟩⟩

/-- **Without a closing bracket the text swallows children** when all of the document is one tag. -/
theorem swallows_iff (hs : '>' ∉ s) (hne : es ≠ []) :
    Swallows s es ↔ IsOneTag (rootMarkup s es) := by
  have hwhole : '<' :: (s ++ ['>']) ++ (markupsIn [] es ++ '<' :: '/' :: (s ++ ['>']))
      = rootMarkup s es := by
    rw [rootMarkup_of_ne_nil hne]
    simp
  constructor
  · intro h
    have hcompletes := h.completes
    rw [hwhole] at hcompletes
    cases h with
    | here _ scanned ends _ _ =>
        obtain ⟨y, hy⟩ := ends
        obtain rfl := eq_nil_of_last (a := '<' :: '/' :: s) (by simp [hs]) hy.symm
        rw [hwhole] at scanned
        exact isOneTag_of_completes scanned hcompletes
    | token scanned _ further =>
        obtain ⟨y, hy, -⟩ := exists_front_of_scan scanned
        obtain rfl := eq_nil_of_last hs hy
        exact absurd further (IsCut.nil.not_swallowsFrom _)
  · rintro ⟨body, f, hscan, hopen⟩
    rw [← hwhole] at hscan
    refine .here (List.cons_ne_nil _ _) hscan ⟨'<' :: '/' :: s, rfl⟩
      (takes_iff.mpr (.empty hopen rfl)) (completes_nil.mpr ⟨_, rfl⟩)

/-! ## §4. Documents. -/

/-- **WHICH TEXTS GIVE A DOCUMENT.**  Without children the tag is read alone; children the text has
to enclose or to swallow. -/
theorem read_documentOf_iff (s : Text) (hes : ∀ e ∈ es, Uniform none e) :
    (∃ e, read (documentOf s [] [] es) = .ok e)
      ↔ es = [] ∧ Completes .initial ('<' :: (s ++ ['/', '>']))
        ∨ es ≠ [] ∧ (Encloses s ∨ Swallows s es) := by
  have hread : (∃ e, read (documentOf s [] [] es) = .ok e)
      ↔ Completes .initial (rootMarkup s es) := by
    rw [completes_iff_readFrom]
    exact exists_congr fun e => read_declarationLine (markupOf_eq_cons _ _ _) e
  rw [hread]
  by_cases hne : es = []
  · subst hne
    simp [rootMarkup_nil]
  · simp [completes_rootMarkup_iff hes hne, hne]

/-- **Whole pieces** have to enclose the children. -/
theorem read_documentOf_iff_of_isCut (h : IsCut ('<' :: (s ++ ['>'])))
    (hes : ∀ e ∈ es, Uniform none e) (hne : es ≠ []) :
    (∃ e, read (documentOf s [] [] es) = .ok e) ↔ Encloses s := by
  have hnot : ¬ Swallows s es := h.not_swallowsFrom _
  simp [read_documentOf_iff s hes, hne, hnot]

/-- A comment that follows the start tag also follows the end tag. -/
example : (read (documentOf "A><!--c--".toList [] [] [.bare "B".toList none])).isOk = true := by
  decide +kernel

/-- **Without a closing bracket** all of the document is the tag of one empty element, or the text
is that of a start tag around children, with neither white space nor a prefix. -/
theorem read_documentOf_iff_of_not_mem (hs : '>' ∉ s) (hnil : s ≠ [])
    (hlast : ∀ c ∈ s.getLast?, isSpace c = false) (hes : ∀ e ∈ es, Uniform none e) :
    (∃ e, read (documentOf s [] [] es) = .ok e) ↔ IsOneTag (rootMarkup s es)
      ∨ es ≠ [] ∧ IsBody s ∧ (∀ c ∈ s, isSpace c = false) ∧ (splitQualified s).1 = [] := by
  rw [read_documentOf_iff s hes, encloses_iff hs hnil hlast]
  by_cases hne : es = []
  · subst hne
    have hone : Completes .initial ('<' :: (s ++ ['/', '>'])) ↔ IsOneTag (rootMarkup s []) := by
      rw [rootMarkup_nil]
      refine ⟨fun h => ?_, IsOneTag.completes⟩
      obtain ⟨t, rest, b, hscan, -, -⟩ := exists_token_of_completes h
      obtain ⟨y, hy, -⟩ := exists_front_of_scan hscan
      obtain rfl : rest = [] :=
        eq_nil_of_last (a := s ++ ['/']) (by simp [hs]) (by simpa using hy)
      exact isOneTag_of_completes hscan h
    simp [hone]
  · simp [swallows_iff hs hne, hne, or_comm]

/-- The quote is closed in the end tag, so all of this document is the tag of `A`. -/
example : (read (documentOf "A b=\"/".toList [] [] [.bare "B".toList none])).isOk = true := by
  decide +kernel

end Crosswalk.Markup
