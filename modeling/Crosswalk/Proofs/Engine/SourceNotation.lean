/-
  Crosswalk.Proofs.Engine.SourceNotation
  ──────────────────────────────────────
  **REPLY FIELDS IN SOURCE NOTATION.**

  The target `source.R.a.b` of a reply field names the root of the reply and
  the element `a/b` below it.  The same path reads that element again: the
  writer drops the root because more names follow, the reader because the root
  has no child of its name.

    • `namesBelow_sourcePath`, `dotField?_sourcePath`: the names of the writer
      and of the reader,
    • `last?_replyWritten`: the last value for a target,
    • `field?_replyDocument`: the field of the document of the reply,
    • `reply_sourceFields`: what is read in the text of the reply.
-/
import Crosswalk.Proofs.Engine.ReplyMarkup
import Crosswalk.Proofs.Path.Field

namespace Crosswalk.Engine

open Markup
open Crosswalk.Path (Writes Reflects)
open Route (FieldMapping)

/-! ## §1. Paths in source notation. -/

/-- The path of the names below a root, the root before them. -/
def sourcePath (root : Text) (names : List Text) : Text :=
  Path.sourceMark ++ ['.'].intercalate (root :: names)

/-- Names of elements without points, the first of which is not that of the root. -/
structure BelowRoot (root : Text) (names : List Text) : Prop where
  nonempty : names ≠ []
  name : ∀ n ∈ names, isName n = true
  point : ∀ n ∈ names, '.' ∉ n
  below : names.head? ≠ some root

/-- A route with fields for its replies, all of them in source notation below one root. -/
structure InSourceNotation (r : Route) (root : Text) : Prop where
  nonempty : r.response ≠ []
  name : isName root = true
  point : '.' ∉ root
  target : ∀ f ∈ r.response, ∃ names, f.target = some (sourcePath root names)
    ∧ BelowRoot root names

section

variable {root : Text} {names : List Text}

/-- **A leading root is dropped by the writer**, because a name follows. -/
theorem namesBelow_sourcePath (hroot : isName root = true) (hpoint : '.' ∉ root)
    (h : BelowRoot root names) : Path.namesBelow root (sourcePath root names) = names := by
  have htarget : Text.after? Path.targetMark (sourcePath root names) = none :=
    Text.after?_eq_none fun hpre => absurd (List.cons_prefix_cons.mp hpre).1 (by decide)
  have hdrop : Text.dropLead Path.targetMark (sourcePath root names) = sourcePath root names := by
    unfold Text.dropLead
    rw [htarget]
    rfl
  have hpoints : ∀ n ∈ root :: names, '.' ∉ n := List.forall_mem_cons.mpr ⟨hpoint, h.point⟩
  have hname : ∀ n ∈ root :: names, isName n = true := List.forall_mem_cons.mpr ⟨hroot, h.name⟩
  -- the points between the names become slashes, and there are no others
  have hslashed : Path.slashed (sourcePath root names) = ['/'].intercalate (root :: names) := by
    have hkeep : ∀ n ∈ root :: names, n.map (fun c => if c = '.' then '/' else c) = n := by
      intro n hn
      have hchars : ∀ c ∈ n, (if c = '.' then '/' else c) = id c := by
        intro c hc
        refine if_neg ?_
        rintro rfl
        exact hpoints n hn hc
      rw [List.map_congr_left hchars, List.map_id]
    unfold Path.slashed
    dsimp only
    rw [hdrop, sourcePath, Text.after?_append]
    dsimp only
    rw [Text.map_intercalate, List.map_congr_left hkeep, List.map_id']
    rfl
  unfold Path.namesBelow
  rw [hslashed, Path.steps_names hname fun n hn => Path.slash_not_mem_of_isName (hname n hn)]
  cases hnames : names with
  | nil => exact absurd hnames h.nonempty
  | cons n names => exact if_pos rfl

/-- The path tells the names. -/
theorem sourcePath_inj {names' : List Text} (hroot : isName root = true) (hpoint : '.' ∉ root)
    (h : BelowRoot root names) (h' : BelowRoot root names')
    (heq : sourcePath root names = sourcePath root names') : names = names' := by
  rw [← namesBelow_sourcePath hroot hpoint h, heq, namesBelow_sourcePath hroot hpoint h']

/-- **It is dropped by the reader**, when no child has its name. -/
theorem dotField?_sourcePath {e : Element} (hname : e.name = root) (hroot : isName root = true)
    (hpoint : '.' ∉ root) (h : BelowRoot root names) (hnone : root ∉ e.children.map Element.name) :
    Path.field? (.markup e) (sourcePath root names)
      = (Path.descend? e names).map Element.trimmedText := by
  have hcolon := colon_not_mem_of_isName hroot
  have hconstant : Text.after? Path.constantMark (sourcePath root names) = none :=
    Text.after?_eq_none fun hpre => absurd (List.cons_prefix_cons.mp hpre).1 (by decide)
  have hsteps : Text.steps '.' (['.'].intercalate (root :: names)) = root :: names :=
    Path.steps_names (List.forall_mem_cons.mpr ⟨hroot, h.name⟩)
      (List.forall_mem_cons.mpr ⟨hpoint, h.point⟩)
  have hlocal : e.matchesLocal root = true := (Path.matchesLocal_iff hcolon e).mpr hname
  have hchild : (e.childLocal? root).isNone = true := by
    rw [Option.isNone_iff_eq_none]
    refine List.find?_eq_none.mpr fun c hc hmatches => hnone ?_
    rw [← (Path.matchesLocal_iff hcolon c).mp hmatches]
    exact List.mem_map_of_mem hc
  unfold Path.field?
  rw [hconstant, sourcePath, Text.after?_append]
  show Path.dotField? e _ = _
  unfold Path.dotField?
  rw [hsteps]
  cases hnames : names with
  | nil => exact absurd hnames h.nonempty
  | cons n names => rw [Path.belowRoot, if_pos (by rw [hlocal, hchild]; rfl)]

/-- What a field in source notation writes: its value at the names. -/
theorem fieldWrite_sourcePath (hroot : isName root = true) (hpoint : '.' ∉ root)
    (h : BelowRoot root names) (value : Except Transform.Fault (Option Text)) :
    fieldWrite root (some (sourcePath root names)) value
      = value.toOption.join.map (fun v => (names, v)) := by
  unfold fieldWrite
  cases value with
  | error fault => rfl
  | ok value =>
      cases value with
      | none => rfl
      | some v =>
          dsimp only
          rw [namesBelow_sourcePath hroot hpoint h]
          cases hnames : names with
          | nil => exact absurd hnames h.nonempty
          | cons n names => rfl

end

/-! ## §2. The values of the fields. -/

/-- The value that a field of a reply produces, if it produces one. -/
def produced? (now : Calendar.Instant) (document : Element) (f : FieldMapping) : Option Text :=
  (replyValue now document f).toOption.join

/-- The value of the last field with the target that produces one. -/
def lastProduced? (now : Calendar.Instant) (document : Element) (fs : List FieldMapping)
    (path : Text) : Option Text :=
  ((fs.filter (·.target = some path)).filterMap (produced? now document)).getLast?

/-- There is one as soon as one of the fields with the target produces a value. -/
theorem exists_lastProduced? {now : Calendar.Instant} {document : Element} {fs : List FieldMapping}
    {f : FieldMapping} {path : Text} (hf : f ∈ fs) (hpath : f.target = some path)
    (hvalue : produced? now document f ≠ none) :
    ∃ w, lastProduced? now document fs path = some w := by
  obtain ⟨v, hv⟩ := Option.ne_none_iff_exists'.mp hvalue
  have hmem : v ∈ (fs.filter (·.target = some path)).filterMap (produced? now document) :=
    List.mem_filterMap.mpr ⟨f, List.mem_filter.mpr ⟨hf, by simpa using hpath⟩, hv⟩
  exact ⟨_, List.getLast?_eq_getLast_of_ne_nil (List.ne_nil_of_mem hmem)⟩

/-- What the fields of a reply write, in order. -/
def replyWritten (now : Calendar.Instant) (document : Element) (r : Route) : Writes :=
  r.response.filterMap (fun f => fieldWrite (replyRoot r) f.target (replyValue now document f))

/-- **The document of a reply reflects the writes of its fields.** -/
theorem replyDocument_reflects {now : Calendar.Instant} {document : Element} {r : Route}
    (hvalid : ∀ w ∈ replyWritten now document r, ∀ n ∈ w.1, isName n = true) :
    Reflects (replyDocument now document r) (replyWritten now document r) := by
  have hempty : Reflects (.bare (replyRoot r) none) [] := Path.reflects_nil rfl rfl
  unfold replyDocument build
  rw [runFields_fst]
  exact @foldl_setField_reflects (replyRoot r) (replyValue now document) r.response _ [] rfl
    hvalid hempty

section

variable {r : Route} {root : Text} (h : InSourceNotation r root)
include h

/-- The root of the reply is the one of the fields. -/
theorem replyRoot_eq : replyRoot r = root := by
  obtain ⟨f, fs, hresponse⟩ := List.exists_cons_of_ne_nil h.nonempty
  obtain ⟨names, htarget, hnames⟩ := h.target f (by rw [hresponse]; exact List.mem_cons_self)
  obtain ⟨n, names, rfl⟩ := List.exists_cons_of_ne_nil hnames.nonempty
  have hname := isTagName_of_isName h.name
  have hsegment : (['.'].intercalate (root :: n :: names)).takeWhile (· != '.') = root := by
    rw [List.intercalate_cons_cons, List.append_assoc]
    exact takeWhile_append_stop (Text.forall_bne_of_not_mem h.point) (bne_self_eq_false '.') _
  have htrim : Text.trim root = root :=
    Text.trim_eq_self fun c hc => not_isBlank_of_isTagChar (hname.2 c hc)
  unfold replyRoot
  rw [hresponse]
  simp only [List.head?_cons, Option.bind_some, htarget, sourcePath, Text.after?_append,
    Option.map_some, hsegment, htrim]
  rw [Option.filter_some, if_pos (by simpa using hname.1)]
  rfl

theorem mem_replyWritten {now : Calendar.Instant} {document : Element} {w : List Text × Text}
    (hw : w ∈ replyWritten now document r) : BelowRoot root w.1 := by
  obtain ⟨f, hf, hwrite⟩ := List.mem_filterMap.mp hw
  obtain ⟨names, htarget, hnames⟩ := h.target f hf
  rw [replyRoot_eq h, htarget, fieldWrite_sourcePath h.name h.point hnames] at hwrite
  obtain ⟨v, -, rfl⟩ := Option.map_eq_some_iff.mp hwrite
  exact hnames

/-- **The last write at the names is the last value for the path.** -/
theorem last?_replyWritten {names : List Text} (hnames : BelowRoot root names)
    (now : Calendar.Instant) (document : Element) :
    (replyWritten now document r).last? names
      = lastProduced? now document r.response (sourcePath root names) := by
  have hwrites : ∀ fs : List FieldMapping, (∀ f ∈ fs, f ∈ r.response) →
      ((fs.filterMap fun f => fieldWrite root f.target (replyValue now document f)).filter
          (·.1 = names)).map Prod.snd
        = (fs.filter (·.target = some (sourcePath root names))).filterMap
            (produced? now document) := by
    intro fs
    -- different targets have different names, so each field is kept on both sides or on neither
    induction fs with
    | nil => intro _; rfl
    | cons f fs ih =>
        intro hfs
        obtain ⟨names', htarget, hnames'⟩ := h.target f (hfs f List.mem_cons_self)
        have hrest := ih fun g hg => hfs g (List.mem_cons_of_mem f hg)
        have hwrite : fieldWrite root f.target (replyValue now document f)
            = (produced? now document f).map (fun v => (names', v)) := by
          rw [htarget]
          exact fieldWrite_sourcePath h.name h.point hnames' _
        have hsame : f.target = some (sourcePath root names) ↔ names' = names := by
          rw [htarget, Option.some.injEq]
          exact ⟨sourcePath_inj h.name h.point hnames' hnames, congrArg _⟩
        rw [List.filterMap_cons, hwrite, List.filter_cons]
        simp only [hsame]
        cases hv : produced? now document f <;> by_cases heq : names' = names <;>
          simp [hv, heq, hrest]
  unfold Writes.last? lastProduced? replyWritten
  rw [replyRoot_eq h, ← hwrites r.response fun _ hf => hf, List.getLast?_map]

/-! ## §3. The document of the reply. -/

/-- No element below the root has its name. -/
theorem root_not_mem_children (now : Calendar.Instant) (document : Element) :
    root ∉ (replyDocument now document r).children.map Element.name := by
  have hreflects := @replyDocument_reflects now document r fun w hw => (mem_replyWritten h hw).name
  rw [hreflects.names_eq, Writes.mem_heads]
  rintro ⟨w, hw, rest, hrest⟩
  exact (mem_replyWritten h hw).below (by rw [← hrest]; rfl)

/-- **At the names of a field with a value there is an element**, with the last value for them. -/
theorem walk_replyDocument {now : Calendar.Instant} {document : Element} {f : FieldMapping}
    (hf : f ∈ r.response) {names : List Text} (htarget : f.target = some (sourcePath root names))
    (hnames : BelowRoot root names) (hvalue : produced? now document f ≠ none) :
    ∃ e, names.foldlM Element.child? (replyDocument now document r) = some e
      ∧ e.text = lastProduced? now document r.response (sourcePath root names) := by
  have hcolon : ∀ n ∈ names, ':' ∉ n := fun n hn => colon_not_mem_of_isName (hnames.name n hn)
  have hreflects := @replyDocument_reflects now document r fun w hw => (mem_replyWritten h hw).name
  -- the element is there because the names are written, and it holds the last write
  obtain ⟨v, hv⟩ := Option.ne_none_iff_exists'.mp hvalue
  have hmem : (names, v) ∈ replyWritten now document r := by
    refine List.mem_filterMap.mpr ⟨f, hf, ?_⟩
    rw [replyRoot_eq h, htarget, fieldWrite_sourcePath h.name h.point hnames]
    exact congrArg (Option.map _) hv
  obtain ⟨e, hwalk⟩ := (hreflects.exists_walk hcolon).mpr
    (.inr ((Writes.under_ne_nil_iff _ _).mpr ⟨_, hmem, List.prefix_refl _⟩))
  refine ⟨e, hwalk, ?_⟩
  rw [(hreflects.walk hcolon hwalk).text_eq, Writes.last?_under, last?_replyWritten h hnames]

/-- **The document of the reply holds the last value of each path**, where the path leads. -/
theorem field?_replyDocument {now : Calendar.Instant} {document : Element} {f : FieldMapping}
    (hf : f ∈ r.response) {path : Text} (hpath : f.target = some path)
    (hvalue : produced? now document f ≠ none) :
    ∃ w, lastProduced? now document r.response path = some w
      ∧ Path.field? (.markup (replyDocument now document r)) path = some (Text.collapse w) := by
  obtain ⟨names, htarget, hnames⟩ := h.target f hf
  obtain ⟨w, hw⟩ := exists_lastProduced? hf hpath hvalue
  obtain rfl : path = sourcePath root names := Option.some.inj (hpath.symm.trans htarget)
  obtain ⟨e, hwalk, htext⟩ := walk_replyDocument h hf htarget hnames hvalue
  have hreflects := @replyDocument_reflects now document r fun w hw => (mem_replyWritten h hw).name
  have hname : (replyDocument now document r).name = root := by
    obtain ⟨cs, -, hroot⟩ := replyDocument_eq now document r
    rw [hroot]
    exact replyRoot_eq h
  refine ⟨w, hw, ?_⟩
  rw [dotField?_sourcePath hname h.name h.point hnames (root_not_mem_children h now document),
    hreflects.descend?_eq fun n hn => colon_not_mem_of_isName (hnames.name n hn), hwalk,
    Option.map_some, Element.trimmedText, htext, hw]
  rfl

/-! ## §4. The reply, read again. -/

/-- **FIELDS IN SOURCE NOTATION ARE READ BACK IN IT.**  For every route with reply fields in source
notation below one root, every instant, every document that is read as the reply and every format
other than JSON: the reply succeeds, its text is read as a tree with this root, and for every field
that produced a value its own target reads the last value that was produced for it, with its white
space collapsed. -/
theorem reply_sourceFields (now : Calendar.Instant) (content : Text) (format : Format)
    (hformat : format ≠ .json) {document : Element}
    (hdocument : readReply content r = .ok document) :
    ∃ t e, reply now content r format = .ok t ∧ Markup.read t.text = .ok e ∧ e.name = root
      ∧ ∀ f ∈ r.response, ∀ path, f.target = some path → produced? now document f ≠ none →
        ∃ w, lastProduced? now document r.response path = some w
          ∧ Path.field? (.markup e) path = some (Text.collapse w) := by
  obtain ⟨t, ht, htext⟩ := reply_of_ok now hformat hdocument
  obtain ⟨cs, hcs, hroot⟩ := replyDocument_eq now document r
  rw [replyRoot_eq h] at hroot
  have hread : Markup.read t.text = .ok (normalize .unbound (replyDocument now document r)) := by
    have hwell : WellFormed (replyDocument now document r) := by
      rw [hroot]
      exact (Uniform.intro h.name hcs).wellFormed fun n hn => absurd hn (by simp)
    rw [htext]
    unfold Markup.write
    rw [read_declarationLine (writeElement_eq_cons [] _)]
    exact readFrom_initial hwell
  refine ⟨t, _, ht, hread, ?_, fun f hf path hpath hvalue => ?_⟩
  · rw [normalize_eq, hroot]
    rfl
  · -- reading normalizes the document, which no path can tell
    rw [Path.field?_normalize]
    exact field?_replyDocument h hf hpath hvalue

end

/-- A route with an element and one below it; the second is written twice, and a third field for it
has no value. -/
def rewriting : Route :=
  { Route.empty with
    id := "r".toList
    response :=
      [.between "constant: x  y".toList "source.R.A".toList,
        .between "constant:1".toList "source.R.A.B".toList,
        .between "constant:2".toList "source.R.A.B".toList,
        .between "none".toList "source.R.A.B".toList] }

theorem inSourceNotation_rewriting : InSourceNotation rewriting "R".toList where
  nonempty := by decide
  name := by decide
  point := by decide
  target := by
    have hone : BelowRoot "R".toList ["A".toList] :=
      ⟨by decide, by decide, by decide, by decide⟩
    have htwo : BelowRoot "R".toList ["A".toList, "B".toList] :=
      ⟨by decide, by decide, by decide, by decide⟩
    intro f hf
    simp only [rewriting, List.mem_cons, List.not_mem_nil, or_false] at hf
    rcases hf with rfl | rfl | rfl | rfl
    · exact ⟨_, rfl, hone⟩
    all_goals exact ⟨_, rfl, htwo⟩

/-- The text beside the child is read with its white space collapsed, and of the child the last
value that there was. -/
theorem reply_sourceFields_rewriting : InSourceNotation rewriting "R".toList
    ∧ ∃ document t e, readReply "<D/>".toList rewriting = .ok document
      ∧ reply newYear "<D/>".toList rewriting .xml = .ok t
      ∧ Markup.read t.text = .ok e ∧ e.name = "R".toList
      ∧ Path.field? (.markup e) "source.R.A".toList = some "x y".toList
      ∧ Path.field? (.markup e) "source.R.A.B".toList = some "2".toList := by
  have hread : readReply "<D/>".toList rewriting = .ok (.bare "D".toList none) := by
    decide +kernel
  obtain ⟨t, e, ht, he, hname, hfields⟩ := reply_sourceFields inSourceNotation_rewriting newYear
    "<D/>".toList .xml (by decide) hread
  obtain ⟨w, hw, hfield⟩ := hfields (.between "constant: x  y".toList "source.R.A".toList)
    (by simp [rewriting]) _ rfl (by decide)
  obtain ⟨w', hw', hfield'⟩ := hfields (.between "constant:1".toList "source.R.A.B".toList)
    (by simp [rewriting]) _ rfl (by decide)
  obtain rfl : " x  y".toList = w := Option.some.inj hw
  obtain rfl : "2".toList = w' := Option.some.inj hw'
  exact ⟨inSourceNotation_rewriting, _, t, e, hread, ht, he, hname,
    hfield.trans (by decide), hfield'.trans (by decide)⟩

end Crosswalk.Engine
