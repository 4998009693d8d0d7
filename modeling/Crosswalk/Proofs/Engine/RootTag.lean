/-
  Crosswalk.Proofs.Engine.RootTag
  ──────────────────────────────────────
  **THE TAG OF THE ROOT AFTER THE REWRITING.**

  A route may ask for a prefix of the root.  The root has it in the end, with
  the URI of the route, unless

    • it has another prefix from the start, or loses the one that it has
      (`TakesPrefix`),
    • the search for the default declaration stops at the end of the value of
      its last declaration (`RunsOver`), which changes the URI.

  `request_root` says that there are no other cases.  Without a prefix from
  the start and with a URI that is written as it is, the two tags of the root
  are all that changes (`request_rootTags`).
-/
import Crosswalk.Proofs.Engine.Request

namespace Crosswalk.Engine

open Markup

variable {r : Route} {own final : Namespace} {cs es : List Element} {uri tag pre : Text}

/-! ## §1. A value that runs over. -/

/-- The root can have the prefix in the end: it has none from the start, or this one and keeps
it. -/
def TakesPrefix (own final : Namespace) : Prop :=
  own.pre = [] ∨ own.pre = final.pre ∧ ¬ LosesRoot own

/-- The value of the last declaration in the tag of the root runs over into the body: the URI ends
as every declaration begins, and the bracket behind the declaration and the body begin with the URI
and a quote. -/
def RunsOver (uri body : Text) : Prop :=
  mark ++ ['='] <:+ uri ∧ ∃ u, uri = '>' :: u ∧ u ++ ['"'] <+: body

/-- A URI ends in the mark when its escaped form does. -/
theorem suffix_escapeValue_iff (uri : Text) :
    mark ++ ['='] <:+ escapeValue uri ↔ mark ++ ['='] <:+ uri := by
  have hmark : escapeValue (mark ++ ['=']) = mark ++ ['='] := by decide
  constructor
  · rintro ⟨v, hv⟩
    -- only the first character of the mark is in no reference, so the cut is made there
    have hcut : escapeValue uri = v ++ 'x' :: "mlns=".toList := hv.symm
    obtain ⟨u₁, u₂, rfl, -, h₂⟩ := escapeValue_cut (by decide) hcut
    have hsame : escapeValue u₂ = u₂ := escapeValue_of_not_mem (by rw [h₂]; decide)
    rw [← hsame, h₂]
    exact ⟨u₁, rfl⟩
  · rintro ⟨u, rfl⟩
    rw [escapeValue_append, hmark]
    exact List.suffix_append _ _

theorem prefix_closing_iff (htag : IsTagName tag) (huri : uri ≠ []) :
    uri ++ ['"'] <+: closing tag pre es
      ↔ ∃ u, uri = '>' :: u ∧ u ++ ['"'] <+: markupsIn pre es := by
  have hquote : ∀ u : Text, '"' ∈ u ++ ['"'] := by simp
  by_cases hempty : es = []
  · -- without a body no quote follows
    subst hempty
    refine iff_of_false (fun h => ?_) ?_
    · exact absurd (h.subset (hquote uri)) (by simp [closing])
    · rintro ⟨u, -, h⟩
      exact absurd (h.subset (hquote u)) List.not_mem_nil
  · rw [closing_of_ne_nil hempty]
    constructor
    · intro h
      cases uri with
      | nil => exact absurd rfl huri
      | cons c u =>
          obtain ⟨rfl, y, hy⟩ := List.cons_prefix_cons.mp h
          have hcut : markupsIn pre es ++ '<' :: '/' :: (tag ++ ['>']) = u ++ '"' :: y := by
            rw [← hy]
            simp
          obtain ⟨z, -, hz⟩ := Text.cut_of_not_mem_right (quote_not_mem_close htag) hcut
          exact ⟨u, rfl, z, by rw [hz]; simp⟩
    · rintro ⟨u, rfl, h⟩
      exact List.cons_prefix_cons.mpr ⟨rfl, h.trans (List.prefix_append _ _)⟩

/-- **What follows the last declaration is hit when its value runs over.** -/
theorem valueHit_closing_iff (htag : IsTagName tag) (huri : final.uri ≠ []) :
    ValueHit final (closing tag pre es) ↔ RunsOver final.uri (markupsIn pre es) :=
  and_congr (suffix_escapeValue_iff _) (prefix_closing_iff htag huri)

/-- The elements below the root, where its namespace is declared. -/
theorem writeElements_own (hown : rootNamespace? r = some own)
    (hcs : AllUniform (rootNamespace? r) cs) : writeElements [own] cs = markupsIn own.pre cs := by
  have hbound : Bound [own] (rootNamespace? r) := by
    rw [hown]
    simp [Bound, prefixOf, Scope.uri, Scope.binding?]
  refine writeElements_eq_markupsIn fun e he => ?_
  have hwrite := writeElement_eq_markupIn hbound (hcs e he)
  rw [hown] at hwrite
  exact hwrite

/-! ## §2. The prefix and the namespace of the root. -/

/-- **WHEN THE ROOT GETS THE PREFIX THAT THE ROUTE ASKS FOR.**  For every validated route with a
namespace and a prefix for its root, and every message that can be read: the text of the request is
read as a tree whose root has the name of the route, that prefix and the URI of the route exactly
when the root takes the prefix and the value of its last declaration does not run over. -/
theorem request_root (now : Calendar.Instant) (content : Text) (r : Route)
    (hr : r.validate = .ok ()) {own final : Namespace} (hown : rootNamespace? r = some own)
    (hfinal : rootSpace? r = some final) {message : Message}
    (hmessage : readInbound content r = .ok message) :
    (∃ t e, request now content r = .ok t ∧ Markup.read t.text = .ok e
        ∧ e.name = r.root ∧ e.ns = some final)
      ↔ TakesPrefix own final
        ∧ ¬ RunsOver own.uri (writeElements [own] (target now message r).1.children) := by
  obtain ⟨cs, hcs, hroot⟩ := target_eq now message r
  obtain ⟨hname, pre, hns, -⟩ := rootSpace?_eq_some hr hfinal
  obtain ⟨hpre, huri⟩ := declarable_rootNamespace hr hns
  obtain rfl : own = ⟨pre, final.uri⟩ := Option.some.inj (hown.symm.trans hns)
  have htag : IsTagName (qualify pre r.root) := isTagName_qualify hpre (validate_eq_ok hr).1
  have hover : RunsOver final.uri (writeElements [⟨pre, final.uri⟩] cs)
      ↔ ValueHit final (closing (qualify pre r.root) pre cs) := by
    rw [writeElements_own hown hcs]
    exact (valueHit_closing_iff htag huri).symm
  rw [request_of_ok hmessage now, hroot]
  show _ ↔ TakesPrefix ⟨pre, final.uri⟩ final ∧ ¬ RunsOver final.uri (writeElements [_] cs)
  rw [hover]
  rcases read_writeTarget_root hr hown hfinal hcs with
    ⟨hlost, hne⟩ | ⟨hkept, e, hread, -, hename, hspace⟩
  · -- only a root with a prefix of its own is lost, so both ways to take one fail
    refine iff_of_false ?_ ?_
    · rintro ⟨t, e, ht, he, -⟩
      rw [← Except.ok.inj ht] at he
      exact hne e he
    · rintro ⟨hnil | ⟨-, hkept⟩, -⟩
      · exact hlost.2.1 hnil
      · exact hkept hlost
  · have htakes : TakesPrefix ⟨pre, final.uri⟩ final ↔ pre = [] ∨ pre = final.pre :=
      or_congr_right (and_iff_left hkept)
    rw [htakes, ← hspace]
    constructor
    · rintro ⟨t, e', ht, he, -, hens⟩
      rw [← Except.ok.inj ht] at he
      obtain rfl : e' = e := Except.ok.inj (he.symm.trans hread)
      exact hens
    · intro hens
      exact ⟨_, e, rfl, hread, hename, hens⟩

/-- A route with a prefix for its namespace and another one for the root. -/
def prefixedTwice : Route :=
  { Route.empty with
    id := "r".toList
    inbound := some .json
    space := some ⟨some "urn:x".toList, some "q".toList, some "ns".toList⟩
    request := [.between "constant:1".toList "A".toList] }

/-- Its root does not get the other one. -/
theorem request_root_prefixedTwice : prefixedTwice.validate = .ok ()
    ∧ rootNamespace? prefixedTwice = some ⟨"q".toList, "urn:x".toList⟩
    ∧ rootSpace? prefixedTwice = some ⟨"ns".toList, "urn:x".toList⟩
    ∧ readInbound "\x7b\x7d".toList prefixedTwice = .ok (.json (.object []))
    ∧ ¬ ∃ t e, request newYear "\x7b\x7d".toList prefixedTwice = .ok t
      ∧ Markup.read t.text = .ok e ∧ e.name = prefixedTwice.root
      ∧ e.ns = some ⟨"ns".toList, "urn:x".toList⟩ := by
  have hr : prefixedTwice.validate = .ok () := by decide
  have hread : readInbound "\x7b\x7d".toList prefixedTwice = .ok (.json (.object [])) := rfl
  have hown : rootNamespace? prefixedTwice = some ⟨"q".toList, "urn:x".toList⟩ := rfl
  have hfinal : rootSpace? prefixedTwice = some ⟨"ns".toList, "urn:x".toList⟩ := rfl
  refine ⟨hr, hown, hfinal, hread, fun h => ?_⟩
  obtain ⟨hnil | ⟨hsame, -⟩, -⟩ :=
    (request_root newYear "\x7b\x7d".toList prefixedTwice hr hown hfinal hread).mp h
  · exact absurd hnil (by decide)
  · exact absurd hsame (by decide)

/-! ## §3. What changes besides the tags. -/

/-- The text of a document: the root with its declarations, their URIs as they are, around a body;
without one the root is one tag. -/
def rootText (name : Text) (declared : List Namespace) : Option Text → Text
  | none =>
    declarationLine
      ++ '<' :: (name ++ declared.flatMap (fun ns => ' ' :: ns.display) ++ "/>".toList)
  | some body =>
    declarationLine
      ++ '<' :: (name ++ declared.flatMap (fun ns => ' ' :: ns.display)
        ++ '>' :: (body ++ endTag name))

/-- The text tells the body. -/
theorem rootText_inj {name : Text} {declared : List Namespace} {body body' : Option Text}
    (h : rootText name declared body = rootText name declared body') : body = body' := by
  cases body with
  | none =>
      cases body' with
      | none => rfl
      | some body' => simp [rootText] at h
  | some body =>
      cases body' with
      | none => simp [rootText] at h
      | some body' =>
          simp only [rootText, List.append_cancel_left_eq, List.cons.injEq, true_and,
            List.append_assoc] at h
          rw [List.append_cancel_right h]

/-- With plain URIs the declarations are written as they are. -/
theorem markupOf_eq_rootText {bindings : List Namespace} (h : ∀ b ∈ bindings, Plain b.uri)
    (tag : Text) (body : Option Text) :
    declarationLine ++ markupOf tag (bindings.map Namespace.attribute) body
      = rootText tag bindings body := by
  have hattributes : (bindings.map Namespace.attribute).flatMap Attribute.write
      = bindings.flatMap (fun ns => ' ' :: ns.display) := by
    rw [List.flatMap_map]
    refine List.flatMap_congr fun b hb => ?_
    rw [attribute_write, h b hb, Namespace.display]
    simp
  cases body <;> simp [markupOf, tagBody, rootText, hattributes, endTag]

/-- **The declaration of a root without a prefix.**  The default one stands first, so the search stops
there and nowhere else; the other one goes. -/
theorem moveDeclaration_of_nil {p root : Text} (hp : isName p = true) (huri : uri ≠ [])
    (hplain : Plain uri) (hroot : isName root = true) {ns : Option Namespace}
    (hcs : AllUniform ns cs) :
    moveDeclaration ⟨p, uri⟩ (documentOf root [⟨[], uri⟩, ⟨p, uri⟩] [] cs)
      = documentOf root [⟨p, uri⟩] [] cs := by
  have hbindings : rootBindings [] ⟨p, uri⟩ = [⟨[], uri⟩, ⟨p, uri⟩] := by
    rw [rootBindings, if_neg (ne_nil_of_isName hp)]
  have hhit : NameHit ⟨[], uri⟩ := (nameHit_iff _).mpr ⟨hplain, .inl rfl⟩
  have hmoved : Moved ns root [] ⟨p, uri⟩ cs (moveDeclaration ⟨p, uri⟩
      (documentOf root (rootBindings [] ⟨p, uri⟩) [] cs)) :=
    moved_documentOf hp huri (.inl rfl) (isTagName_of_isName hroot) hcs
  rw [hbindings] at hmoved
  generalize moveDeclaration _ _ = moved at hmoved ⊢
  -- the own declaration is hit, which leaves one case
  cases hmoved with
  | own => rfl
  | kept miss => exact absurd hhit miss
  | altered miss => exact absurd hhit miss

/-- The text before the rewriting of a root without a prefix. -/
theorem write_of_nil {p : Text} (hr : r.validate = .ok ()) (hown : rootNamespace? r = some ⟨[], uri⟩)
    (hfinal : rootSpace? r = some ⟨p, uri⟩) (hcs : AllUniform (rootNamespace? r) cs) :
    Markup.write (rootWith r cs) = documentOf r.root [⟨[], uri⟩, ⟨p, uri⟩] [] cs := by
  obtain ⟨hp, -⟩ := rootSpace?_eq_some hr hfinal
  rw [write_rootWith hr hown hfinal hcs, rootBindings, if_neg (ne_nil_of_isName hp)]
  rfl

/-- The text after it. -/
theorem writeTarget_of_nil {p : Text} (hr : r.validate = .ok ())
    (hown : rootNamespace? r = some ⟨[], uri⟩) (hfinal : rootSpace? r = some ⟨p, uri⟩)
    (hplain : Plain uri) (hcs : AllUniform (rootNamespace? r) cs) :
    writeTarget r (rootWith r cs) = documentOf (qualify p r.root) [⟨p, uri⟩] [] cs := by
  obtain ⟨hp, -⟩ := rootSpace?_eq_some hr hfinal
  have hname : isName r.root = true := (validate_eq_ok hr).1
  have huri : uri ≠ [] := (declarable_rootNamespace hr hown).2
  have hdecl : Declares [(⟨p, uri⟩ : Namespace)] :=
    declares_singleton (.inr (isTagName_of_isName hp)) huri
  unfold writeTarget
  rw [hfinal, write_of_nil hr hown hfinal hcs]
  show renameTags r.root (qualify p r.root) (moveDeclaration ⟨p, uri⟩ _) = _
  rw [moveDeclaration_of_nil hp huri hplain hname hcs, rename_of_nil hp hname hdecl (by simp)]

/-- **ONLY THE TAGS OF THE ROOT CHANGE.**  For every validated route with a URI without markup
characters, no prefix of the namespace and a prefix for the root, and every message that can be
read: the request gives a text; before the rewriting the root declares the URI by default and for
the prefix, and after it the text is that of the root with the prefix in its tags, the one
declaration, and the same body or none. -/
theorem request_rootTags (now : Calendar.Instant) (content : Text) (r : Route)
    (hr : r.validate = .ok ()) {p uri : Text} (hown : rootNamespace? r = some ⟨[], uri⟩)
    (hfinal : rootSpace? r = some ⟨p, uri⟩) (huri : ∀ c ∈ uri, c ∉ ['&', '<', '>', '"', '\''])
    {message : Message} (hmessage : readInbound content r = .ok message) :
    ∃ t, request now content r = .ok t
      ∧ (∃ body, Markup.write (target now message r).1
          = rootText r.root [⟨[], uri⟩, ⟨p, uri⟩] body)
      ∧ ∀ body, Markup.write (target now message r).1
          = rootText r.root [⟨[], uri⟩, ⟨p, uri⟩] body →
        t.text = rootText (qualify p r.root) [⟨p, uri⟩] body := by
  obtain ⟨cs, hcs, hroot⟩ := target_eq now message r
  have hplain : Plain uri := escapeValue_eq_self fun c hc => escapeValueChar_eq (by
    have hmarkup := huri c hc
    simp only [List.mem_cons, List.not_mem_nil, or_false, not_or] at hmarkup
    simp [hmarkup])
  have hbefore : Markup.write (rootWith r cs) = rootText r.root [⟨[], uri⟩, ⟨p, uri⟩]
      (contentOf none cs (markupsIn [] cs)) :=
    (write_of_nil hr hown hfinal hcs).trans (markupOf_eq_rootText (by simp [hplain]) r.root _)
  have hafter : writeTarget r (rootWith r cs) = rootText (qualify p r.root) [⟨p, uri⟩]
      (contentOf none cs (markupsIn [] cs)) :=
    (writeTarget_of_nil hr hown hfinal hplain hcs).trans
      (markupOf_eq_rootText (by simp [hplain]) _ _)
  rw [request_of_ok hmessage now, hroot]
  refine ⟨_, rfl, ⟨_, hbefore⟩, fun body hbody => ?_⟩
  -- the text before tells the body, so it is the one that was written
  rw [← rootText_inj (hbefore.symm.trans hbody)]
  exact hafter

/-- A route with an element that has the name of the root and holds its declaration, beside one
whose name begins with it. -/
def echoing : Route :=
  { Route.empty with
    id := "r".toList
    inbound := some .json
    space := some ⟨some "urn:x".toList, none, some "ns".toList⟩
    rootName := some "R".toList
    request :=
      [.between "constant:xmlns=\"urn:x\"".toList "R/R".toList,
        .between "constant:1".toList "RX".toList] }

/-- Both stay as they are. -/
theorem request_rootTags_echoing : echoing.validate = .ok ()
    ∧ rootNamespace? echoing = some ⟨[], "urn:x".toList⟩
    ∧ rootSpace? echoing = some ⟨"ns".toList, "urn:x".toList⟩
    ∧ (∀ c ∈ "urn:x".toList, c ∉ ['&', '<', '>', '"', '\''])
    ∧ readInbound "\x7b\x7d".toList echoing = .ok (.json (.object []))
    ∧ ∃ t, request newYear "\x7b\x7d".toList echoing = .ok t
      ∧ t.text = declarationLine ++ "<ns:R xmlns:ns=\"urn:x\">".toList
        ++ "<R>xmlns=\"urn:x\"</R><RX>1</RX></ns:R>".toList := by
  have hr : echoing.validate = .ok () := by decide
  have hread : readInbound "\x7b\x7d".toList echoing = .ok (.json (.object [])) := rfl
  have hown : rootNamespace? echoing = some ⟨[], "urn:x".toList⟩ := rfl
  have hfinal : rootSpace? echoing = some ⟨"ns".toList, "urn:x".toList⟩ := rfl
  have huri : ∀ c ∈ "urn:x".toList, c ∉ ['&', '<', '>', '"', '\''] := by simp
  have hwritten : Markup.write (target newYear (.json (.object [])) echoing).1
      = rootText "R".toList [⟨[], "urn:x".toList⟩, ⟨"ns".toList, "urn:x".toList⟩]
        (some "<R>xmlns=\"urn:x\"</R><RX>1</RX>".toList) := by decide +kernel
  obtain ⟨t, ht, -, htext⟩ :=
    request_rootTags newYear "\x7b\x7d".toList echoing hr hown hfinal huri hread
  exact ⟨hr, hown, hfinal, huri, hread, t, ht, (htext _ hwritten).trans (by decide +kernel)⟩

end Crosswalk.Engine
