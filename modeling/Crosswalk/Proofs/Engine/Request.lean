/-
  Crosswalk.Proofs.Engine.Request
  ──────────────────────────────────────
  **THE TEXT OF A CANONICAL DOCUMENT, READ AGAIN.**

  A request fails when its message cannot be read and for no other reason.
  The text it gives is a document of the same elements unless the search
  for the default declaration of the root namespace stops elsewhere:

    • at the own declaration of the root, when its prefix ends in `xmlns`
      (`LosesRoot`): the root is left with a prefix that nothing declares,
    • in the text of a field, unless it stops in the tag of the root before
      (`HitsRoot`): the prefix is put into that text.

  `request_read` and `request_outline` say that there are no other cases.
-/
import Crosswalk.Proofs.Engine.RootPrefix
import Crosswalk.Proofs.Engine.Shape

namespace Crosswalk.Engine

open Markup

variable {r : Route} {own final : Namespace} {cs : List Element}

/-! ## §1. The text before the rewriting. -/

theorem missing_nil {nss : List Namespace} (h : ∀ ns ∈ nss, ns.uri ≠ []) : missing [] nss = nss := by
  unfold missing
  rw [List.filter_eq_self]
  intro ns hns
  have hne : Scope.uri [] ns.pre ≠ ns.uri := fun heq => h ns hns heq.symm
  simpa using hne

/-- Inside the root its namespace is bound. -/
theorem bound_inside {e : Element} (h : e.LegibleTag) (scope : Scope) :
    Bound (declareAll scope (neededBindings e.ns e.decls)).2 e.ns := by
  unfold Bound
  rw [uri_declareAll]
  exact h.uri_inside scope.uri

/-- **A canonical document before the rewriting of its root.** -/
theorem write_rootWith (hr : r.validate = .ok ()) (hown : rootNamespace? r = some own)
    (hfinal : rootSpace? r = some final) (hcs : AllUniform (rootNamespace? r) cs) :
    Markup.write (rootWith r cs)
      = documentOf (qualify own.pre r.root) (rootBindings own.pre final) own.pre cs := by
  obtain ⟨hname, pre, hns, hdecls⟩ := rootSpace?_eq_some hr hfinal
  have huri : final.uri ≠ [] := (declarable_rootNamespace hr hns).2
  obtain rfl : own = ⟨pre, final.uri⟩ := Option.some.inj (hown.symm.trans hns)
  have htag := (properTag_rootWith hr cs).legible
  have hneeded : neededBindings (rootWith r cs).ns (rootWith r cs).decls = rootBindings pre final := by
    unfold neededBindings rootWith rootBindings
    rw [hown, hdecls]
    rfl
  have huris : ∀ ns ∈ rootBindings pre final, ns.uri ≠ [] := by
    unfold rootBindings
    by_cases hsame : final.pre = pre <;> simp [hsame, huri]
  have hkids : writeElements (declareAll [] (rootBindings pre final)).2 cs = markupsIn pre cs := by
    have hbound := bound_inside htag []
    rw [hneeded] at hbound
    refine writeElements_eq_markupsIn fun e he => ?_
    have hwrite := writeElement_eq_markupIn hbound (hcs e he)
    rw [show (rootWith r cs).ns = some ⟨pre, final.uri⟩ from hown] at hwrite
    exact hwrite
  have hcontent : writtenContent (declareAll [] (rootBindings pre final)).2 (rootWith r cs)
      = contentOf none cs (markupsIn pre cs) := by
    unfold writtenContent contentOf
    rw [← hkids]
    rfl
  have hqual : (rootWith r cs).qualifiedName = qualify pre r.root := by
    unfold Element.qualifiedName Element.pre rootWith
    rw [hown]
    rfl
  rw [Markup.write, writeElement_eq htag, hneeded, hcontent, missing_nil huris, hqual]
  unfold documentOf rootWith
  rw [List.append_nil]

/-! ## §2. The text after the rewriting. -/

/-- **A canonical document after the rewriting of its root**: the declaration is moved, and then the
tags get their name. -/
theorem writeTarget_rootWith (hr : r.validate = .ok ()) (hown : rootNamespace? r = some own)
    (hfinal : rootSpace? r = some final) (hcs : AllUniform (rootNamespace? r) cs) :
    writeTarget r (rootWith r cs)
      = renameTags r.root (qualify final.pre r.root) (moveDeclaration final
          (documentOf (qualify own.pre r.root) (rootBindings own.pre final) own.pre cs)) := by
  unfold writeTarget
  rw [hfinal, ← write_rootWith hr hown hfinal hcs, ← prefixRoot_eq]

/-- The root loses its namespace: the prefix is not empty and ends as every declaration begins, and
the URI is written as it is. -/
def LosesRoot (own : Namespace) : Prop :=
  Plain own.uri ∧ own.pre ≠ [] ∧ mark <:+ own.pre

/-- The search stops in the tag of the root and leaves the texts as they are: the URI is written as
it is, and the root has no prefix or gets one that ends as every declaration begins. -/
def HitsRoot (own final : Namespace) : Prop :=
  Plain own.uri ∧ (own.pre = [] ∨ mark <:+ final.pre)

theorem suffix_declarationName (ns : Namespace) :
    mark <:+ ns.declarationName ↔ ns.pre = [] ∨ mark <:+ ns.pre := by
  unfold Namespace.declarationName Namespace.isDefault
  by_cases hpre : ns.pre = []
  · rw [if_pos (by simp [hpre])]
    exact iff_of_true ⟨[], rfl⟩ (.inl hpre)
  · rw [if_neg (by simp [hpre])]
    refine ⟨fun ⟨x, hx⟩ => .inr ?_, fun h => ?_⟩
    · have hcut : x ++ mark = mark ++ ':' :: ns.pre := hx
      obtain ⟨y, hy, -⟩ := Text.cut_of_not_mem_right (by decide) hcut
      exact ⟨y, hy.symm⟩
    · exact (h.resolve_left hpre).trans (List.suffix_append _ _)

theorem nameHit_iff (ns : Namespace) :
    NameHit ns ↔ Plain ns.uri ∧ (ns.pre = [] ∨ mark <:+ ns.pre) :=
  and_congr_right fun _ => suffix_declarationName ns

theorem outline_rootWith (r : Route) (cs : List Element) :
    outline (rootWith r cs) = { Element.bare r.root none with children := outlineAll cs } := by
  rw [outline_eq]
  rfl

theorem finalPrefix_eq_iff {pre p : Text} : finalPrefix pre p = p ↔ pre = [] ∨ pre = p := by
  unfold finalPrefix
  by_cases hnil : pre = []
  · rw [if_pos hnil]
    exact iff_of_true rfl (.inl hnil)
  · rw [if_neg hnil]
    exact ⟨.inr, fun h => h.resolve_left hnil⟩

/-- The root is in the given namespace when it has the prefix and the prefix still its URI. -/
theorem boundRoot_iff {bindings : List Namespace} {e : Element} {pre : Text} {Kept : Prop}
    (h : Declares bindings)
    (he : ∃ b ∈ bindings, b.pre = finalPrefix pre final.pre ∧ e.ns = some b)
    (hkept : pre = [] ∨ pre = final.pre → (final ∈ bindings ↔ Kept)) :
    e.ns = some final ↔ (pre = [] ∨ pre = final.pre) ∧ Kept := by
  obtain ⟨b, hb, hbpre, hens⟩ := he
  rw [hens, Option.some.injEq]
  constructor
  · rintro rfl
    have hpre := finalPrefix_eq_iff.mp hbpre.symm
    exact ⟨hpre, (hkept hpre).mp hb⟩
  · rintro ⟨hpre, hstays⟩
    rw [finalPrefix_eq_iff.mpr hpre] at hbpre
    exact List.inj_on_of_nodup_map h.prefixes hb ((hkept hpre).mpr hstays) hbpre

/-- The own declaration of the root got the prefix: without one before, that is the prefix of the
root; with one, the root is left with a prefix that nothing declares. -/
theorem read_own {root : Text} (hname : isName final.pre = true)
    (hpre : own.pre = [] ∨ isName own.pre = true) (huri : own.uri ≠ []) (hroot : isName root = true)
    {ns : Option Namespace} (hcs : AllUniform ns cs) (hit : NameHit own) :
    (LosesRoot own ∧ ∀ e, read (renameTags root (qualify final.pre root) (documentOf
          (qualify own.pre root) [⟨qualify own.pre final.pre, own.uri⟩] own.pre cs)) ≠ .ok e)
      ∨ (own.pre = [] ∧ ∃ e, read (renameTags root (qualify final.pre root) (documentOf
          (qualify own.pre root) [⟨qualify own.pre final.pre, own.uri⟩] own.pre cs)) = .ok e
        ∧ e.ns = some ⟨final.pre, own.uri⟩
        ∧ outline e = { Element.bare root none with children := outlineAll cs }) := by
  have hhit := (nameHit_iff own).mp hit
  have hdecl : Declares [⟨qualify own.pre final.pre, own.uri⟩] :=
    declares_singleton (.inr (isTagName_qualify hpre hname)) huri
  by_cases hnil : own.pre = []
  · have hqual : qualify own.pre final.pre = final.pre := by
      rw [hnil]
      rfl
    obtain ⟨e, hread, ⟨b, hb, -, hens⟩, hout⟩ := read_renamed hname hpre hroot hcs hdecl
      (fun h => absurd hnil h) fun _ => by rw [hqual]; exact List.mem_singleton_self final.pre
    rw [List.mem_singleton.mp hb, hqual] at hens
    exact .inr ⟨hnil, e, hread, hens, hout⟩
  · have hownName : isName own.pre = true := hpre.resolve_left hnil
    have hunbound : own.pre
        ∉ [(⟨qualify own.pre final.pre, own.uri⟩ : Namespace)].map Namespace.pre := by
      intro hmem
      have heq : own.pre = qualify own.pre final.pre := List.mem_singleton.mp hmem
      rw [qualify_eq hownName] at heq
      exact absurd heq (by simp)
    have hunresolved : resolve?
        [(⟨qualify own.pre final.pre, own.uri⟩ : Namespace)].reverse own.pre = none := by
      have hnone := binding?_eq_none.mpr hunbound
      unfold resolve?
      rw [List.reverse_singleton, hnone]
      simp [hnil]
    refine .inl ⟨⟨hhit.1, hnil, hhit.2.resolve_left hnil⟩, ?_⟩
    rw [rename_documentOf hname hpre hroot hcs hdecl (by simp), finalPrefix, if_neg hnil]
    exact hdecl.read_documentOf_ne_ok (isTagName_qualify (.inr hownName) hroot).opensTag
      (splitQualified_qualify (colon_not_mem_of_isName hownName)
        fun _ => colon_not_mem_of_isName hroot) hunresolved

/-- **The rewritten document, read again**: the root is lost, or the document is read.  Then it has
the old outline when the search stopped in the tag of the root or found nothing, and its root is in
the given namespace when it had no other prefix and no value ran over into the content. -/
theorem read_writeTarget_root (hr : r.validate = .ok ()) (hown : rootNamespace? r = some own)
    (hfinal : rootSpace? r = some final) (hcs : AllUniform (rootNamespace? r) cs) :
    (LosesRoot own ∧ ∀ e, read (writeTarget r (rootWith r cs)) ≠ .ok e)
      ∨ (¬ LosesRoot own ∧ ∃ e, read (writeTarget r (rootWith r cs)) = .ok e
        ∧ (outline e = outline (rootWith r cs) ↔ HitsRoot own final
          ∨ ¬ needle own.uri <:+: markupsIn own.pre cs)
        ∧ e.name = r.root
        ∧ (e.ns = some final ↔ (own.pre = [] ∨ own.pre = final.pre)
          ∧ ¬ ValueHit final (closing (qualify own.pre r.root) own.pre cs))) := by
  obtain ⟨hname, pre, hns, -⟩ := rootSpace?_eq_some hr hfinal
  obtain ⟨hpre, huri⟩ := declarable_rootNamespace hr hns
  have hroot : isName r.root = true := (validate_eq_ok hr).1
  have htext := writeTarget_rootWith hr hown hfinal hcs
  obtain rfl : own = ⟨pre, final.uri⟩ := Option.some.inj (hown.symm.trans hns)
  have hkept : ¬ NameHit ⟨pre, final.uri⟩ → ¬ LosesRoot ⟨pre, final.uri⟩ := fun hmiss hlost =>
    hmiss ((nameHit_iff _).mpr ⟨hlost.1, .inr hlost.2.2⟩)
  -- a value that runs over has a URI with a bracket, and such a URI is found nowhere below
  have hover : ∀ {es}, AllUniform (rootNamespace? r) es →
      ValueHit final (closing (qualify pre r.root) pre es) →
      '>' ∈ final.uri ∧ ¬ needle final.uri <:+: markupsIn pre es := by
    rintro es hes ⟨-, rest, hrest⟩
    exact bracket_of_closing (r := rest) hpre hes huri (by rw [← hrest]; simp)
  have hnamed : ∀ {e : Element} {es}, outline e
      = { Element.bare r.root none with children := outlineAll es } → e.name = r.root := by
    intro e es hout
    rw [outline_eq] at hout
    exact congrArg Element.name hout
  have hmoved := moved_documentOf hname huri hpre (isTagName_qualify hpre hroot) hcs
  rw [htext, outline_rootWith]
  generalize moveDeclaration final _ = moved at hmoved ⊢
  cases hmoved with
  | own hit =>
      rcases read_own hname hpre huri hroot hcs hit with hlost | ⟨hnil, e, hread, hens, hout⟩
      · exact .inl hlost
      · refine .inr ⟨fun h => h.2.1 hnil, e, hread, iff_of_true hout (.inl ⟨hit.1, .inl hnil⟩),
          hnamed hout, iff_of_true hens ⟨.inl hnil, fun hvalue => ?_⟩⟩
        have hbracket := (hover hcs hvalue).1
        rw [← hit.1] at hbracket
        exact not_mem_escapeValue (.inr (.inl rfl)) final.uri hbracket
  | kept miss hdecl hbound hrootBound hstays cause =>
      obtain ⟨e, hread, hspace, hout⟩ :=
        read_renamed hname hpre hroot hcs hdecl (fun _ => hbound) hrootBound
      refine .inr ⟨hkept miss, e, hread, iff_of_true hout (cause.imp_left fun h => ?_), hnamed hout,
        boundRoot_iff hdecl hspace hstays⟩
      have hfinalHit := (nameHit_iff final).mp h
      exact ⟨hfinalHit.1, .inr (hfinalHit.2.resolve_left (ne_nil_of_isName hname))⟩
  | altered miss miss_final hit huniform hdiffers =>
      have hdecl := declares_rootBindings hname huri hpre
      obtain ⟨e, hread, hspace, hout⟩ := read_renamed hname hpre hroot huniform hdecl
        (fun _ => by simp [rootBindings]) (fun _ => List.mem_map_of_mem (mem_rootBindings pre final))
      refine .inr ⟨hkept miss, e, hread, iff_of_false (fun hsame => ?_) ?_, hnamed hout,
        boundRoot_iff hdecl hspace fun _ => iff_of_true (mem_rootBindings pre final)
          fun hvalue => (hover hcs hvalue).2 hit⟩
      · rw [hout] at hsame
        exact hdiffers (Element.mk.inj hsame).2.2.2.2.1
      · -- the three ways to keep the data are what the three misses exclude
        rintro (⟨hplain, hnil | hsuffix⟩ | hnone)
        · exact miss ((nameHit_iff _).mpr ⟨hplain, .inl hnil⟩)
        · exact miss_final ((nameHit_iff final).mpr ⟨hplain, .inr hsuffix⟩)
        · exact hnone hit

/-- Whether the rewritten document has the data that it had before. -/
theorem read_writeTarget (hr : r.validate = .ok ()) (hown : rootNamespace? r = some own)
    (hfinal : rootSpace? r = some final) (hcs : AllUniform (rootNamespace? r) cs) :
    (LosesRoot own ∧ ∀ e, read (writeTarget r (rootWith r cs)) ≠ .ok e)
      ∨ (¬ LosesRoot own ∧ ∃ e, read (writeTarget r (rootWith r cs)) = .ok e
        ∧ (outline e = outline (rootWith r cs) ↔ HitsRoot own final
          ∨ ¬ needle own.uri <:+: markupsIn own.pre cs)) :=
  (read_writeTarget_root hr hown hfinal hcs).imp_right fun ⟨hkept, e, hread, hdata, _⟩ =>
    ⟨hkept, e, hread, hdata⟩

/-! ## §3. Requests. -/

theorem request_of_error {content : Text} {u : Unreadable} (h : readInbound content r = .error u)
    (now : Calendar.Instant) : request now content r = .error u := by
  unfold request
  rw [h]
  rfl

theorem request_of_ok {content : Text} {message : Message} (h : readInbound content r = .ok message)
    (now : Calendar.Instant) : request now content r
      = .ok ⟨writeTarget r (target now message r).1, (target now message r).2⟩ := by
  unfold request
  rw [h]
  rfl

theorem readInbound_eq_error {content : Text} {u : Unreadable} :
    readInbound content r = .error u
      ↔ r.inbound = none ∧ u = ⟨r.id, .unsupported "(none)".toList⟩
        ∨ ∃ format e, r.inbound = some format ∧ Message.read format content = .error e
          ∧ u = ⟨r.id, e⟩ := by
  unfold readInbound
  cases r.inbound with
  | none => simp [eq_comm]
  | some format =>
      cases hread : Message.read format content with
      | error e => simp [hread, Except.mapError, eq_comm]
      | ok message => simp [hread, Except.mapError]

/-- A route loses its root: it asks for a prefix of the root, and the namespace of the root is one
that is lost then. -/
def RouteLosesRoot (r : Route) : Prop :=
  ∃ own final, rootNamespace? r = some own ∧ rootSpace? r = some final ∧ LosesRoot own

/-- The written document of a validated route is read, whatever its fields are, unless the route
loses its root. -/
theorem read_writeTarget_iff (hr : r.validate = .ok ()) (now : Calendar.Instant)
    (message : Message) :
    (∃ e, Markup.read (writeTarget r (target now message r).1) = .ok e) ↔ ¬ RouteLosesRoot r := by
  obtain ⟨cs, hcs, hroot⟩ := target_eq now message r
  cases hfinal : rootSpace? r with
  | none =>
      have hwrite : writeTarget r (target now message r).1
          = Markup.write (target now message r).1 := by
        unfold writeTarget
        rw [hfinal]
      -- without a rewriting the text is that of a well-formed tree
      have hread := (read_declarationLine (writeElement_eq_cons [] _) _).mpr
        (readFrom_initial (wellFormed_target hr now message))
      rw [hwrite]
      refine iff_of_true ⟨_, hread⟩ ?_
      rintro ⟨own, final, -, hsome, -⟩
      rw [hfinal] at hsome
      exact absurd hsome (by simp)
  | some final =>
      obtain ⟨-, pre, hown, -⟩ := rootSpace?_eq_some hr hfinal
      rw [hroot]
      rcases read_writeTarget hr hown hfinal hcs with ⟨hlost, hne⟩ | ⟨hkept, e, hread, -⟩
      · exact iff_of_false (fun ⟨e, he⟩ => hne e he) (fun h => h ⟨_, _, hown, hfinal, hlost⟩)
      · refine iff_of_true ⟨e, hread⟩ ?_
        rintro ⟨own, final', hown', -, hlost⟩
        rw [hown] at hown'
        exact hkept (Option.some.inj hown' ▸ hlost)

/-- **WHEN A REQUEST FAILS, AND WHEN ITS TEXT IS A DOCUMENT.**  For every validated route, every
instant and every text: the request fails exactly when the route has no inbound format or the text
is no message of that format, with the error of reading it; and the text that it gives otherwise is
a document unless the route loses its root. -/
theorem request_read (now : Calendar.Instant) (content : Text) (r : Route)
    (hr : r.validate = .ok ()) :
    (∀ u, request now content r = .error u ↔
        r.inbound = none ∧ u = ⟨r.id, .unsupported "(none)".toList⟩
          ∨ ∃ format e, r.inbound = some format ∧ Message.read format content = .error e
            ∧ u = ⟨r.id, e⟩)
      ∧ ∀ t, request now content r = .ok t →
        ((∃ e, Markup.read t.text = .ok e) ↔ ¬ RouteLosesRoot r) := by
  cases hread : readInbound content r with
  | error fault =>
      rw [request_of_error hread now]
      refine ⟨fun u => ?_, fun t ht => absurd ht (by simp)⟩
      rw [← readInbound_eq_error, hread, Except.error.injEq, Except.error.injEq]
  | ok message =>
      rw [request_of_ok hread now]
      refine ⟨fun u => ?_, fun t ht => ?_⟩
      · rw [← readInbound_eq_error, hread]
        exact iff_of_false (by simp) (by simp)
      · rw [← Except.ok.inj ht]
        exact read_writeTarget_iff hr now message

/-- A route whose namespace has a prefix that ends as every declaration begins. -/
def shadowing : Route :=
  { Route.empty with
    id := "r".toList
    inbound := some .json
    space := some ⟨some "urn:x".toList, some "axmlns".toList, some "ns".toList⟩ }

/-- Its requests succeed, but what they give is no document. -/
theorem request_read_shadowing : shadowing.validate = .ok ()
    ∧ ∃ t, request newYear "\x7b\x7d".toList shadowing = .ok t ∧ ¬ ∃ e, Markup.read t.text = .ok e := by
  have hr : shadowing.validate = .ok () := by decide
  have hread : readInbound "\x7b\x7d".toList shadowing = .ok (.json (.object [])) := rfl
  have hlost : RouteLosesRoot shadowing :=
    ⟨⟨"axmlns".toList, "urn:x".toList⟩, ⟨"ns".toList, "urn:x".toList⟩, rfl, rfl, rfl, by decide,
      "a".toList, rfl⟩
  obtain ⟨-, hdocument⟩ := request_read newYear "\x7b\x7d".toList shadowing hr
  have hrequest := request_of_ok hread newYear
  exact ⟨hr, _, hrequest, fun h => (hdocument _ hrequest).mp h hlost⟩

/-- **WHEN THE DATA OF A MESSAGE SURVIVES THE REWRITING OF THE ROOT.**  For every validated route
with a namespace and a prefix for its root, and every message that can be read: the request gives a
text that is read as a tree with the same names and texts as the document before exactly when the
root is not lost and the search stops in the tag of the root or finds nothing below it. -/
theorem request_outline (now : Calendar.Instant) (content : Text) (r : Route)
    (hr : r.validate = .ok ()) {own final : Namespace} (hown : rootNamespace? r = some own)
    (hfinal : rootSpace? r = some final) {message : Message}
    (hmessage : readInbound content r = .ok message) :
    (∃ t e, request now content r = .ok t ∧ Markup.read t.text = .ok e
        ∧ outline e = outline (target now message r).1)
      ↔ ¬ LosesRoot own ∧ (HitsRoot own final
        ∨ ¬ needle own.uri <:+: writeElements [own] (target now message r).1.children) := by
  obtain ⟨cs, hcs, hroot⟩ := target_eq now message r
  have hwritten : writeElements [own] cs = markupsIn own.pre cs := by
    have hbound : Bound [own] (rootNamespace? r) := by
      rw [hown]
      simp [Bound, prefixOf, Scope.uri, Scope.binding?]
    refine writeElements_eq_markupsIn fun e he => ?_
    have hwrite := writeElement_eq_markupIn hbound (hcs e he)
    rw [hown] at hwrite
    exact hwrite
  rw [request_of_ok hmessage now, hroot]
  show _ ↔ ¬ LosesRoot own ∧ (HitsRoot own final ∨ ¬ needle own.uri <:+: writeElements [own] cs)
  rw [hwritten]
  rcases read_writeTarget hr hown hfinal hcs with ⟨hlost, hne⟩ | ⟨hkept, e, hread, hiff⟩
  · refine iff_of_false ?_ (fun h => h.1 hlost)
    rintro ⟨t, e, ht, he, -⟩
    rw [← Except.ok.inj ht] at he
    exact hne e he
  · rw [← hiff]
    constructor
    · rintro ⟨t, e', ht, he, hout⟩
      rw [← Except.ok.inj ht] at he
      have hsame : e' = e := Except.ok.inj (he.symm.trans hread)
      rw [hsame] at hout
      exact ⟨hkept, hout⟩
    · rintro ⟨-, hout⟩
      exact ⟨_, e, rfl, hread, hout⟩

/-- A route with a field that looks like the default declaration of its namespace. -/
def quoting : Route :=
  { Route.empty with
    id := "r".toList
    inbound := some .json
    space := some ⟨some "urn:x".toList, some "p".toList, some "ns".toList⟩
    request := [.between "constant:xmlns=\"urn:x\"".toList "A".toList] }

/-- Its field is changed by the rewriting of the root. -/
theorem request_outline_quoting : quoting.validate = .ok ()
    ∧ rootNamespace? quoting = some ⟨"p".toList, "urn:x".toList⟩
    ∧ rootSpace? quoting = some ⟨"ns".toList, "urn:x".toList⟩
    ∧ readInbound "\x7b\x7d".toList quoting = .ok (.json (.object []))
    ∧ ¬ ∃ t e, request newYear "\x7b\x7d".toList quoting = .ok t ∧ Markup.read t.text = .ok e
      ∧ outline e = outline (target newYear (.json (.object [])) quoting).1 := by
  have hr : quoting.validate = .ok () := by decide
  have hread : readInbound "\x7b\x7d".toList quoting = .ok (.json (.object [])) := rfl
  have hown : rootNamespace? quoting = some ⟨"p".toList, "urn:x".toList⟩ := rfl
  have hfinal : rootSpace? quoting = some ⟨"ns".toList, "urn:x".toList⟩ := rfl
  have hchildren : (target newYear (.json (.object [])) quoting).1.children
      = [⟨"A".toList, some ⟨"p".toList, "urn:x".toList⟩, [], [], [],
          some "xmlns=\"urn:x\"".toList⟩] := rfl
  have hwritten : writeElements [⟨"p".toList, "urn:x".toList⟩] [⟨"A".toList,
        some ⟨"p".toList, "urn:x".toList⟩, [], [], [], some "xmlns=\"urn:x\"".toList⟩]
      = "<p:A>xmlns=\"urn:x\"</p:A>".toList := rfl
  refine ⟨hr, hown, hfinal, hread, fun h => ?_⟩
  obtain ⟨-, ⟨-, hnil | hsuffix⟩ | hnone⟩ :=
    (request_outline newYear "\x7b\x7d".toList quoting hr hown hfinal hread).mp h
  · exact absurd hnil (by decide)
  · exact absurd hsuffix (by decide)
  · rw [hchildren, hwritten] at hnone
    exact hnone ⟨"<p:A>".toList, "</p:A>".toList, rfl⟩

end Crosswalk.Engine
