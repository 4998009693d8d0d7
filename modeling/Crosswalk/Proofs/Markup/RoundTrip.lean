/-
  Crosswalk.Proofs.Markup.RoundTrip
  ──────────────────────────────────────
  **WRITING IS UNDONE BY READING.**

  The scope list of the writer and the one that the reader keeps in its
  innermost frame are the same list at every place of the text, because each
  start tag extends both by the bindings it declares (`openElement_write`).
  So one induction over the tree says what reading a written element does to
  the elements read so far:

    • `takes_iff`: what a piece that is taken does, kind by kind,
    • `readFrom_markupOf`: an element with any content that can be read,
    • `readFrom_writeElement`: a written element adds its normal form,
    • `read_write`: a written document gives back its root.
-/
import Mathlib.Data.List.Nodup
import Mathlib.Data.List.TakeDrop
import Crosswalk.Proofs.Markup.Normal

namespace Crosswalk.Markup

/-! ## §1. One step of the reader. -/

/-- A piece is read and reading goes on behind it. -/
theorem readFrom_token {b b' : Build} {s rest : Text} {t : Token} (hs : scan s = .token t rest)
    (ht : b.take t = .ok b') : readFrom b s = readFrom b' rest := by
  rw [readFrom]
  split
  next h => rw [hs] at h; exact absurd h (by simp)
  next h => rw [hs] at h; exact absurd h (by simp)
  next t' rest' h =>
    rw [hs] at h
    obtain ⟨rfl, rfl⟩ := Scan.token.inj h
    rw [ht]

/-- A piece that cannot be taken is the fault of the whole text. -/
theorem readFrom_refused {b : Build} {s rest : Text} {t : Token} {c : Cause}
    (hs : scan s = .token t rest) (ht : b.take t = .error c) :
    readFrom b s = .error (c, .before s) := by
  rw [readFrom]
  split
  next h => rw [hs] at h; exact absurd h (by simp)
  next h => rw [hs] at h; exact absurd h (by simp)
  next t' rest' h =>
    rw [hs] at h
    obtain ⟨rfl, rfl⟩ := Scan.token.inj h
    rw [ht]

theorem readFrom_nil (b : Build) :
    readFrom b [] = match b.finish with
      | .error c => .error (c, .atEnd)
      | .ok root => .ok root := by
  rw [readFrom]
  rfl

/-- A document is what is read behind the byte order mark. -/
theorem read_eq_ok_iff {content : Text} {e : Element} :
    read content = .ok e ↔ readFrom .initial (dropMark content) = .ok e := by
  unfold read
  cases readFrom .initial (dropMark content) <;> simp

/-- What a piece that is taken does, one case for each kind of piece. -/
inductive Takes (b : Build) : Token → Build → Prop
  | aside : Takes b .aside b
  | text {raw s : Text} {c : Build} (characters : unescape raw = .ok s)
      (added : b.addText s = .ok c) : Takes b (.text raw) c
  | «section» {s : Text} {c : Build} (added : b.addText s = .ok c) : Takes b (.section s) c
  | start {body : Text} {f : Frame} (opened : openElement body b.scope = .ok f) :
      Takes b (.start body) ⟨f :: b.frames, b.root⟩
  | empty {body : Text} {f : Frame} {c : Build} (opened : openElement body b.scope = .ok f)
      (added : b.add f.element = .ok c) : Takes b (.empty body) c
  | close {body : Text} {f : Frame} {fs : List Frame} {c : Build} (innermost : b.frames = f :: fs)
      (name : closeName body = f.name) (added : Build.add ⟨fs, b.root⟩ f.element.settled = .ok c) :
      Takes b (.close body) c

/-- **A piece is taken in one of these ways.** -/
theorem takes_iff {b c : Build} {t : Token} : b.take t = .ok c ↔ Takes b t c := by
  constructor
  · intro h
    cases t with
    | aside => exact Except.ok.inj h ▸ .aside
    | text raw =>
        cases hs : unescape raw with
        | error f => simp [Build.take, hs] at h
        | ok s =>
            simp only [Build.take, hs] at h
            exact .text hs h
    | «section» s => exact .section h
    | start body =>
        cases hopen : openElement body b.scope with
        | error cause => simp [Build.take, hopen] at h
        | ok f =>
            simp only [Build.take, hopen] at h
            exact Except.ok.inj h ▸ .start hopen
    | empty body =>
        cases hopen : openElement body b.scope with
        | error cause => simp [Build.take, hopen] at h
        | ok f =>
            simp only [Build.take, hopen] at h
            exact .empty hopen h
    | close body =>
        cases hframes : b.frames with
        | nil => simp [Build.take, hframes] at h
        | cons f fs =>
            simp only [Build.take, hframes] at h
            split at h
            next hname => exact .close hframes hname h
            next => exact absurd h (by simp)
  · intro h
    cases h with
    | aside => rfl
    | text characters added => simp only [Build.take, characters, added]
    | «section» added => exact added
    | start opened => simp only [Build.take, opened]
    | empty opened added => simp only [Build.take, opened, added]
    | close innermost name added => simp only [Build.take, innermost, if_pos name, added]

/-- At its end tag an element changes in nothing but its text. -/
theorem settled_eq (e : Element) : e.settled = { e with text := e.settled.text } := by
  obtain ⟨name, ns, decls, attrs, children, text⟩ := e
  unfold Element.settled
  split <;> rfl

theorem name_settled (e : Element) : e.settled.name = e.name := by
  rw [settled_eq]

theorem children_settled (e : Element) : e.settled.children = e.children := by
  rw [settled_eq]

/-! ## §2. An element around any content. -/

/-- The markup of an element: `none` is an element without content, with one tag alone. -/
def markupOf (tag : Text) (attrs : List Attribute) : Option Text → Text
  | none => '<' :: (tagBody tag attrs ++ ['/', '>'])
  | some content => '<' :: (tagBody tag attrs ++ '>' :: (content ++ '<' :: '/' :: (tag ++ ['>'])))

/-- The one tag of an element without content adds that element. -/
theorem readFrom_markupOf_none {tag : Text} {attrs : List Attribute} (ht : OpensTag tag)
    (ha : ∀ a ∈ attrs, IsKey a.name) {b b' : Build} {f : Frame}
    (hopen : openElement (tagBody tag attrs) b.scope = .ok f) (hadd : b.add f.element = .ok b')
    (rest : Text) : readFrom b (markupOf tag attrs none ++ rest) = readFrom b' rest := by
  have hscan := scan_emptyTag ht ha rest
  have htake : b.take (.empty (tagBody tag attrs)) = .ok b' := by
    simp only [Build.take, hopen]
    exact hadd
  have hs : markupOf tag attrs none ++ rest = '<' :: (tagBody tag attrs ++ '/' :: '>' :: rest) := by
    simp [markupOf]
  rw [hs]
  exact readFrom_token hscan htake

/-- An element is added once its content was read into it. -/
theorem readFrom_markupOf {tag content : Text} {attrs : List Attribute} (ht : OpensTag tag)
    (ha : ∀ a ∈ attrs, IsKey a.name) {b b' : Build} {f : Frame} {e : Element}
    (hopen : openElement (tagBody tag attrs) b.scope = .ok f) (hname : f.name = tag)
    (hcontent : ∀ s, readFrom ⟨f :: b.frames, b.root⟩ (content ++ '<' :: s)
      = readFrom ⟨{ f with element := e } :: b.frames, b.root⟩ ('<' :: s))
    (hadd : b.add e.settled = .ok b') (rest : Text) :
    readFrom b (markupOf tag attrs (some content) ++ rest) = readFrom b' rest := by
  have hs : markupOf tag attrs (some content) ++ rest
      = '<' :: (tagBody tag attrs ++ '>' :: (content ++ '<' :: '/' :: (tag ++ '>' :: rest))) := by
    simp [markupOf]
  have hstart : b.take (.start (tagBody tag attrs)) = .ok ⟨f :: b.frames, b.root⟩ := by
    simp only [Build.take, hopen]
  have hclose : Build.take ⟨{ f with element := e } :: b.frames, b.root⟩ (.close tag) = .ok b' := by
    simp only [Build.take, closeName_of_opensTag ht, hname, if_true]
    exact hadd
  rw [hs, readFrom_token (scan_startTag ht ha _) hstart, hcontent]
  exact readFrom_token (scan_endTag ht rest) hclose

/-- A tag that opens nothing is the fault of the whole text. -/
theorem readFrom_markupOf_refused {tag : Text} {attrs : List Attribute}
    (hbody : IsBody (tagBody tag attrs)) {b : Build} {c : Cause}
    (hopen : openElement (tagBody tag attrs) b.scope = .error c) (content : Option Text) :
    readFrom b (markupOf tag attrs content) = .error (c, .before (markupOf tag attrs content)) := by
  cases content with
  | none =>
      have htake : b.take (.empty (tagBody tag attrs)) = .error c := by
        simp only [Build.take, hopen]
      exact readFrom_refused (hbody.scan_empty []) htake
  | some content =>
      have htake : b.take (.start (tagBody tag attrs)) = .error c := by
        simp only [Build.take, hopen]
      exact readFrom_refused (hbody.scan_start _) htake

theorem markupOf_eq_cons (tag : Text) (attrs : List Attribute) (content : Option Text) :
    ∃ s, markupOf tag attrs content = '<' :: s := by
  cases content <;> exact ⟨_, rfl⟩

/-! ## §3. What a start tag opens. -/

/-- A name with its prefix is taken apart again; without a prefix it must not look like one. -/
theorem splitQualified_qualify {pre name : Text} (hp : ':' ∉ pre) (hn : pre = [] → ':' ∉ name) :
    splitQualified (qualify pre name) = (pre, name) := by
  have hpre := Text.forall_bne_of_not_mem hp
  unfold splitQualified qualify
  rw [List.span_eq_takeWhile_dropWhile]
  cases pre with
  | nil =>
      have hname := Text.forall_bne_of_not_mem (hn rfl)
      rw [if_pos (by rfl), List.takeWhile_eq_self_iff.mpr hname,
        List.dropWhile_eq_nil_iff.mpr hname]
  | cons c pre =>
      rw [if_neg (by simp), takeWhile_append_stop hpre (by decide),
        dropWhile_append_stop hpre (by decide)]

theorem isTagName_qualify {pre name : Text} (hp : pre = [] ∨ isName pre = true)
    (hn : isName name = true) : IsTagName (qualify pre name) := by
  unfold qualify
  rcases hp with rfl | hp
  · exact isTagName_of_isName hn
  · rw [if_neg (by simp [ne_nil_of_isName hp])]
    exact (isTagName_of_isName hp).colon (isTagName_of_isName hn)

theorem Namespace.isTagName_declarationName {ns : Namespace} (h : ns.pre = [] ∨ IsTagName ns.pre) :
    IsTagName ns.declarationName := by
  have hall : "xmlns".toList.all isTagChar = true := by decide
  have hx : IsTagName "xmlns".toList := ⟨by decide, List.all_eq_true.mp hall⟩
  unfold Namespace.declarationName Namespace.isDefault
  rcases h with h | h
  · rw [if_pos (by rw [h]; rfl)]
    exact hx
  · have hne : ns.pre ≠ [] := h.1
    rw [if_neg (by simp [hne])]
    exact hx.colon h

/-- The attribute of a binding declares that binding. -/
theorem Namespace.binding?_attribute (ns : Namespace) : ns.attribute.binding? = some ns := by
  obtain ⟨pre, uri⟩ := ns
  unfold Attribute.binding? Namespace.attribute Namespace.declarationName Namespace.isDefault
  cases pre with
  | nil => rfl
  | cons c pre =>
      have hx : ("xmlns:".toList ++ c :: pre) ≠ "xmlns".toList := by simp
      have ha : Text.after? "xmlns:".toList ("xmlns:".toList ++ c :: pre) = some (c :: pre) := by
        simp [Text.after?, List.isPrefixOf?]
      simp only [List.isEmpty_cons, Bool.false_eq_true, if_false]
      rw [if_neg hx, ha]
      rfl

theorem IsAttributeName.isTagName {s : Text} (h : IsAttributeName s) : IsTagName s := by
  rcases h with h | ⟨p, n, hp, hn, rfl⟩
  · exact isTagName_of_isName h
  · exact (isTagName_of_isName hp).colon (isTagName_of_isName hn)

/-- The namespace that a prefix is resolved to: none for the empty prefix unless it is bound, and
no result at all for a prefix that is not bound. -/
def resolve? (scope : Scope) (pre : Text) : Option (Option Namespace) :=
  match scope.binding? pre with
  | some ns => some (if ns.uri.isEmpty then none else some ns)
  | none => if pre.isEmpty then some none else none

/-- The frame that a tag with these attributes opens, once its prefix is resolved. -/
def frameOf (tag name : Text) (attrs : List Attribute) (scope : Scope) (ns : Option Namespace) :
    Frame :=
  ⟨{ name := name
     ns := ns
     decls := distinct ((attrs.filterMap Attribute.binding?).filter
       (fun b => some b ≠ ns && !b.uri.isEmpty))
     attrs := attrs.filter (fun a => a.binding?.isNone)
     children := []
     text := none }, tag, (attrs.filterMap Attribute.binding?).reverse ++ scope⟩

/-- The namespace that a prefix is resolved to is bound to it in the scope. -/
theorem binding?_of_resolve? {scope : Scope} {pre : Text} {ns : Namespace}
    (h : resolve? scope pre = some (some ns)) : scope.binding? pre = some ns ∧ ns.uri ≠ [] := by
  unfold resolve? at h
  cases hb : scope.binding? pre with
  | none => simp [hb] at h
  | some m =>
      simp only [hb, Option.some.injEq] at h
      by_cases hu : m.uri.isEmpty = true
      · simp [hu] at h
      · rw [if_neg hu] at h
        obtain rfl := Option.some.inj h
        exact ⟨rfl, by simpa using hu⟩

/-- **What a start tag opens**: its attributes are read, its declarations come into scope, and its
prefix is looked up in them first. -/
theorem openElement_eq_ok {body : Text} {scope : Scope} {f : Frame} :
    openElement body scope = .ok f ↔ ∃ attrs ns, tagAttributes body = .ok attrs
      ∧ resolve? ((attrs.filterMap Attribute.binding?).reverse ++ scope)
          (splitQualified (tagName body)).1 = some ns
      ∧ f = frameOf (tagName body) (splitQualified (tagName body)).2 attrs scope ns := by
  unfold openElement
  cases hattrs : tagAttributes body with
  | error fault => simp
  | ok attrs =>
      simp only [Except.ok.injEq, exists_and_left, exists_eq_left']
      unfold resolve?
      cases Scope.binding? ((attrs.filterMap Attribute.binding?).reverse ++ scope)
          (splitQualified (tagName body)).1 with
      | some ns =>
          constructor
          · intro h
            exact ⟨_, rfl, (Except.ok.inj h).symm⟩
          · rintro ⟨ns', hns', rfl⟩
            obtain rfl := Option.some.inj hns'
            rfl
      | none =>
          by_cases hpre : (splitQualified (tagName body)).1.isEmpty = true
          · simp only [hpre, if_true, Option.some.injEq, exists_eq_left', Except.ok.injEq]
            exact eq_comm
          · simp [hpre]

/-- The tag that is written with given attributes opens what they say. -/
theorem openElement_tagBody {tag pre name : Text} {attrs : List Attribute} (ht : OpensTag tag)
    (hsplit : splitQualified tag = (pre, name)) (ha : ∀ a ∈ attrs, IsKey a.name)
    (hd : (attrs.map Attribute.name).Nodup) (scope : Scope) :
    openElement (tagBody tag attrs) scope
      = match resolve? ((attrs.filterMap Attribute.binding?).reverse ++ scope) pre with
        | some ns => .ok (frameOf tag name attrs scope ns)
        | none => .error (.unboundPrefix pre tag) := by
  unfold openElement
  rw [tagAttributes_tagBody ht ha hd]
  simp only [tagName_tagBody ht, hsplit]
  unfold resolve?
  cases Scope.binding? ((attrs.filterMap Attribute.binding?).reverse ++ scope) pre with
  | some ns => rfl
  | none => by_cases hpre : pre.isEmpty <;> simp [hpre, frameOf]

/-- The frame that a tag with declarations before its attributes opens. -/
def tagFrame (pre name : Text) (bindings : List Namespace) (attrs : List Attribute)
    (scope : Scope) (ns : Option Namespace) : Frame :=
  ⟨{ name := name
     ns := ns
     decls := distinct (bindings.filter (fun b => some b ≠ ns && !b.uri.isEmpty))
     attrs := attrs
     children := []
     text := none }, qualify pre name, bindings.reverse ++ scope⟩

theorem filterMap_binding? {bindings : List Namespace} {attrs : List Attribute}
    (h : ∀ a ∈ attrs, a.binding? = none) :
    (bindings.map Namespace.attribute ++ attrs).filterMap Attribute.binding? = bindings := by
  have hb : Attribute.binding? ∘ Namespace.attribute = some := by
    funext ns
    exact ns.binding?_attribute
  rw [List.filterMap_append, List.filterMap_map, hb, List.filterMap_some,
    List.filterMap_eq_nil_iff.mpr h, List.append_nil]

theorem filter_binding?_isNone {bindings : List Namespace} {attrs : List Attribute}
    (h : ∀ a ∈ attrs, a.binding? = none) :
    (bindings.map Namespace.attribute ++ attrs).filter (fun a => a.binding?.isNone) = attrs := by
  have hb : (bindings.map Namespace.attribute).filter (fun a => a.binding?.isNone) = [] := by
    rw [List.filter_eq_nil_iff]
    intro a ha
    obtain ⟨ns, _, rfl⟩ := List.mem_map.mp ha
    simp [ns.binding?_attribute]
  rw [List.filter_append, hb, List.nil_append, List.filter_eq_self]
  intro a ha
  simp [h a ha]

theorem frameOf_eq_tagFrame {pre name : Text} {bindings : List Namespace} {attrs : List Attribute}
    (hb : ∀ a ∈ attrs, a.binding? = none) (scope : Scope) (ns : Option Namespace) :
    frameOf (qualify pre name) name (bindings.map Namespace.attribute ++ attrs) scope ns
      = tagFrame pre name bindings attrs scope ns := by
  rw [frameOf, tagFrame, filterMap_binding? hb, filter_binding?_isNone hb]

/-- **What a written start tag opens**: its declarations stand before its attributes. -/
theorem openElement_declared {pre name : Text} {bindings : List Namespace}
    {attrs : List Attribute} (hsplit : splitQualified (qualify pre name) = (pre, name))
    (ht : OpensTag (qualify pre name))
    (ha : ∀ a ∈ bindings.map Namespace.attribute ++ attrs, IsKey a.name)
    (hd : ((bindings.map Namespace.attribute ++ attrs).map Attribute.name).Nodup)
    (hb : ∀ a ∈ attrs, a.binding? = none) (scope : Scope) :
    openElement (tagBody (qualify pre name) (bindings.map Namespace.attribute ++ attrs)) scope
      = match resolve? (bindings.reverse ++ scope) pre with
        | some ns => .ok (tagFrame pre name bindings attrs scope ns)
        | none => .error (.unboundPrefix pre (qualify pre name)) := by
  rw [openElement_tagBody ht hsplit ha hd, filterMap_binding? hb]
  simp only [frameOf_eq_tagFrame hb]

/-! ## §4. Tags that are read back. -/

theorem declarationName_inj {m n : Namespace} (h : m.declarationName = n.declarationName) :
    m.pre = n.pre := by
  have hm := m.binding?_attribute
  have hn := n.binding?_attribute
  unfold Attribute.binding? Namespace.attribute at hm hn
  simp only at hm hn
  rw [h] at hm
  split at hm
  next hx =>
    rw [if_pos hx] at hn
    rw [← Option.some.inj hm, ← Option.some.inj hn]
  next hx =>
    rw [if_neg hx] at hn
    obtain ⟨p, hp, hm⟩ := Option.map_eq_some_iff.mp hm
    obtain ⟨q, hq, hn⟩ := Option.map_eq_some_iff.mp hn
    rw [← hm, ← hn]
    exact Option.some.inj (hp.symm.trans hq)

/-- Different prefixes are declared by different attributes. -/
theorem nodup_declarationName {nss : List Namespace} (h : (nss.map Namespace.pre).Nodup) :
    (nss.map Namespace.declarationName).Nodup := by
  rw [List.Nodup, List.pairwise_map] at h ⊢
  exact h.imp fun hne heq => hne (declarationName_inj heq)

theorem distinct_of_nodup : ∀ {nss : List Namespace}, nss.Nodup → distinct nss = nss
  | [], _ => rfl
  | ns :: nss, h => by
      obtain ⟨hfresh, hd⟩ := List.nodup_cons.mp h
      rw [distinct, distinct_of_nodup hd, List.filter_eq_self.mpr]
      intro m hm
      simp only [ne_eq, decide_not, Bool.not_eq_eq_eq_not, Bool.not_true, decide_eq_false_iff_not]
      rintro rfl
      exact hfresh hm

/-- What reading a tag back asks of an element: its names are read as names, and each prefix in its
tag is declared once. -/
structure Element.LegibleTag (e : Element) : Prop where
  label : OpensTag e.qualifiedName
  split : splitQualified e.qualifiedName = (e.pre, e.name)
  declared : ∀ ns ∈ neededBindings e.ns e.decls, IsKey ns.declarationName
  keys : ∀ a ∈ e.attrs, IsKey a.name
  space : ∀ ns, e.ns = some ns → ns.uri ≠ []
  decls : ∀ d ∈ e.decls, d.uri ≠ []
  prefixes : (e.decls.map Namespace.pre).Nodup
  ownPrefix : ∀ d ∈ e.decls, d.pre ≠ e.pre
  attrs : ∀ a ∈ e.attrs, a.binding? = none
  attrNames : (e.attrs.map Attribute.name).Nodup

/-- A proper tag is read back. -/
theorem Element.ProperTag.legible {e : Element} (h : e.ProperTag) : e.LegibleTag := by
  have hpre : e.pre = [] ∨ isName e.pre = true := by
    unfold Element.pre
    cases hns : e.ns with
    | none => exact .inl rfl
    | some ns => exact (h.space ns hns).1
  have hcolon : ':' ∉ e.pre := by
    rcases hpre with hp | hp
    · rw [hp]; simp
    · exact colon_not_mem_of_isName hp
  refine
    { label := (isTagName_qualify hpre h.name).opensTag
      split := splitQualified_qualify hcolon fun _ => colon_not_mem_of_isName h.name
      declared := ?_
      keys := fun a ha => (h.attrs a ha).1.isTagName.isKey
      space := fun ns hns => (h.space ns hns).2
      decls := fun d hd => (h.decls d hd).2
      prefixes := h.prefixes
      ownPrefix := h.ownPrefix
      attrs := ?_
      attrNames := h.attrNames }
  · intro ns hns
    apply IsTagName.isKey
    apply Namespace.isTagName_declarationName
    rcases List.mem_cons.mp hns with rfl | hd
    · cases hown : e.ns with
      | none => exact .inl rfl
      | some own => exact (h.space own hown).1.imp_right isTagName_of_isName
    · exact (h.decls ns hd).1.imp_right isTagName_of_isName
  · intro a ha
    obtain ⟨_, hx, hp⟩ := h.attrs a ha
    unfold Attribute.binding?
    rw [if_neg hx, Option.map_eq_none_iff]
    cases hafter : Text.after? "xmlns:".toList a.name with
    | none => rfl
    | some rest => exact absurd ⟨rest, (List.isPrefixOf?_eq_some_iff_append_eq.mp hafter)⟩ hp

namespace Element.LegibleTag

variable {e : Element} (h : e.LegibleTag)
include h

/-- The prefixes of the needed bindings: that of the element and those of its declarations. -/
theorem nodup_needed : ((neededBindings e.ns e.decls).map Namespace.pre).Nodup := by
  have hown : (e.ns.getD ⟨[], []⟩).pre = e.pre := by
    unfold Element.pre
    cases e.ns <;> rfl
  unfold neededBindings
  rw [List.map_cons, hown, List.nodup_cons]
  refine ⟨fun hmem => ?_, h.prefixes⟩
  obtain ⟨d, hd, hpre⟩ := List.mem_map.mp hmem
  exact h.ownPrefix d hd hpre

/-- The names in a tag that declares some of the needed bindings are read as names. -/
theorem isKey_of_mem {bindings : List Namespace}
    (hsub : bindings.Sublist (neededBindings e.ns e.decls)) :
    ∀ a ∈ bindings.map Namespace.attribute ++ e.attrs, IsKey a.name := by
  intro a ha
  rcases List.mem_append.mp ha with ha | ha
  · obtain ⟨ns, hns, rfl⟩ := List.mem_map.mp ha
    exact h.declared ns (hsub.subset hns)
  · exact h.keys a ha

/-- The names in a tag that declares some of the needed bindings are all different. -/
theorem nodup_attributes {bindings : List Namespace}
    (hsub : bindings.Sublist (neededBindings e.ns e.decls)) :
    ((bindings.map Namespace.attribute ++ e.attrs).map Attribute.name).Nodup := by
  have hdecl : (bindings.map Namespace.declarationName).Nodup :=
    nodup_declarationName (h.nodup_needed.sublist (hsub.map _))
  rw [List.map_append, List.map_map, List.nodup_append]
  refine ⟨hdecl, h.attrNames, ?_⟩
  intro x hx y hy
  rintro rfl
  obtain ⟨ns, _, rfl⟩ := List.mem_map.mp hx
  obtain ⟨a, ha, hname⟩ := List.mem_map.mp hy
  -- whether an attribute is a declaration is told by its name alone, so no name is both
  have hnone := h.attrs a ha
  have hsome := ns.binding?_attribute
  unfold Attribute.binding? at hnone hsome
  rw [show a.name = ns.attribute.name from hname] at hnone
  split at hsome
  next hx => rw [if_pos hx] at hnone; exact absurd hnone (by simp)
  next hx =>
    rw [if_neg hx, Option.map_eq_none_iff] at hnone
    rw [hnone] at hsome
    exact absurd hsome (by simp)

/-- Inside the tag the prefix of the element stands for its namespace, or for none. -/
theorem uri_inside (b : Bindings) :
    b.inside e.ns e.decls e.pre = ((e.ns.map Namespace.uri).getD []) := by
  unfold Bindings.inside
  rw [foldl_bind_of_forall_ne h.ownPrefix]
  unfold Bindings.bind Element.pre
  cases e.ns <;> simp

/-- The prefix of the element is resolved to its namespace. -/
theorem resolve?_pre {b : Bindings} {inner : Scope} (hi : inner.uri = b.inside e.ns e.decls) :
    resolve? inner e.pre = some e.ns := by
  have huri : inner.uri e.pre = (e.ns.map Namespace.uri).getD [] := by
    rw [hi, h.uri_inside]
  unfold Scope.uri at huri
  unfold resolve?
  cases hns : e.ns with
  | none =>
      rw [hns] at huri
      have hpre : e.pre = [] := by
        unfold Element.pre
        rw [hns]
        rfl
      -- a binding to no URI takes the default namespace back, which counts as none
      cases hb : inner.binding? e.pre with
      | none => simp [hpre]
      | some m =>
          rw [hb] at huri
          have hm : m.uri = [] := huri
          simp [hm]
  | some ns =>
      rw [hns] at huri
      have hne : ns.uri ≠ [] := h.space ns hns
      cases hb : inner.binding? e.pre with
      | none =>
          rw [hb] at huri
          exact absurd huri.symm hne
      | some m =>
          rw [hb] at huri
          have hm : m.uri = ns.uri := huri
          have hpre : m.pre = e.pre := by simpa using List.find?_some hb
          have hown : e.pre = ns.pre := by
            unfold Element.pre
            rw [hns]
            rfl
          have heq : m = ns := by
            obtain ⟨mp, mu⟩ := m
            obtain ⟨np, nu⟩ := ns
            simp only at hm hpre hown
            rw [hm, hpre, hown]
          rw [heq]
          simp [hne]

/-- Of the declared bindings the further declarations remain. -/
theorem distinct_missing (scope : Scope) :
    distinct ((missing scope (neededBindings e.ns e.decls)).filter
        (fun d => some d ≠ e.ns && !d.uri.isEmpty))
      = e.decls.filter (fun d => scope.uri d.pre ≠ d.uri) := by
  have hown : (some (e.ns.getD ⟨[], []⟩) ≠ e.ns && !(e.ns.getD ⟨[], []⟩).uri.isEmpty) = false := by
    cases e.ns <;> simp
  have hdecls : ∀ d ∈ e.decls, (some d ≠ e.ns && !d.uri.isEmpty) = true := by
    intro d hd
    have hne : some d ≠ e.ns := by
      intro heq
      apply h.ownPrefix d hd
      unfold Element.pre
      rw [← heq]
      rfl
    simp [hne, h.decls d hd]
  have hnodup : (e.decls.filter (fun d => scope.uri d.pre ≠ d.uri)).Nodup :=
    (List.Nodup.of_map Namespace.pre h.prefixes).filter _
  rw [← distinct_of_nodup hnodup]
  congr 1
  unfold missing neededBindings
  rw [List.filter_filter, List.filter_cons_of_neg (by simp only [hown]; simp)]
  apply List.filter_congr
  intro d hd
  rw [hdecls d hd, Bool.true_and]

end Element.LegibleTag

/-- The frame that the written tag of an element opens: nothing is in the element yet, and the
scope is the one the writer goes on with. -/
def openedFrame (scope : Scope) (e : Element) : Frame :=
  ⟨{ e with
      decls := e.decls.filter (fun d => scope.uri d.pre ≠ d.uri)
      children := []
      text := none }, e.qualifiedName, (declareAll scope (neededBindings e.ns e.decls)).2⟩

/-- **A legible start tag is read as it was written.** -/
theorem openElement_write {e : Element} (h : e.LegibleTag) (scope : Scope) :
    openElement (tagBody e.qualifiedName
        ((missing scope (neededBindings e.ns e.decls)).map Namespace.attribute ++ e.attrs)) scope
      = .ok (openedFrame scope e) := by
  have hsub : (missing scope (neededBindings e.ns e.decls)).Sublist (neededBindings e.ns e.decls) :=
    List.filter_sublist
  have hinner : Scope.uri ((missing scope (neededBindings e.ns e.decls)).reverse ++ scope)
      = Bindings.inside scope.uri e.ns e.decls := by
    have heq := congrArg Prod.snd (declareAll_eq _ scope h.nodup_needed)
    simp only at heq
    rw [← heq, uri_declareAll]
    rfl
  have hopen := openElement_declared h.split h.label (h.isKey_of_mem hsub)
    (h.nodup_attributes hsub) h.attrs scope
  rw [h.resolve?_pre hinner] at hopen
  rw [Element.qualifiedName, hopen]
  simp only
  rw [tagFrame, openedFrame, h.distinct_missing, declareAll_eq _ scope h.nodup_needed]
  rfl

/-! ## §5. The content of an element. -/

/-- What is written between the tags of an element; `none` when it has a single tag. -/
def writtenContent (inner : Scope) (e : Element) : Option Text :=
  if e.text.isNone && e.children.isEmpty then none
  else some (escapeText (e.text.getD []) ++ writeElements inner e.children)

theorem writeElement_eq {e : Element} (h : e.LegibleTag) (scope : Scope) :
    writeElement scope e
      = markupOf e.qualifiedName
          ((missing scope (neededBindings e.ns e.decls)).map Namespace.attribute ++ e.attrs)
          (writtenContent (declareAll scope (neededBindings e.ns e.decls)).2 e) := by
  have hall := declareAll_eq _ scope h.nodup_needed
  obtain ⟨name, ns, decls, attrs, children, text⟩ := e
  simp only at hall
  rw [writeElement, hall]
  unfold writtenContent
  by_cases hc : (text.isNone && children.isEmpty) = true
  · simp only [hc, if_true]
    simp [markupOf, tagBody, Element.qualifiedName, Element.pre]
    rfl
  · simp only [if_neg hc]
    simp [markupOf, tagBody, Element.qualifiedName, Element.pre]
    rfl

/-- A written element begins with a bracket. -/
theorem writeElement_eq_cons (scope : Scope) (e : Element) :
    ∃ s, writeElement scope e = '<' :: s := by
  obtain ⟨name, ns, decls, attrs, children, text⟩ := e
  rw [writeElement]
  obtain ⟨declared, inner⟩ := declareAll scope (neededBindings ns decls)
  simp only
  split
  next => exact ⟨_, rfl⟩
  next => exact ⟨_, rfl⟩

theorem writeElements_append_eq_cons (scope : Scope) (es : List Element) (s : Text) :
    ∃ s', writeElements scope es ++ '<' :: s = '<' :: s' := by
  cases es with
  | nil => exact ⟨s, rfl⟩
  | cons e es =>
      obtain ⟨s', hs'⟩ := writeElement_eq_cons scope e
      rw [writeElements, hs']
      exact ⟨_, rfl⟩

/-- Escaped text goes into the open element; nothing was written for an empty one. -/
theorem readFrom_escapeText (f : Frame) (fs : List Frame) (root : Option Element) (t s : Text) :
    readFrom ⟨f :: fs, root⟩ (escapeText t ++ '<' :: s)
      = readFrom ⟨{ f with element := if t.isEmpty then f.element else f.element.appendText t }
          :: fs, root⟩ ('<' :: s) := by
  by_cases ht : t = []
  · subst ht
    rfl
  · have hne : escapeText t ≠ [] := fun h => ht (escapeText_eq_nil.mp h)
    have hscan := scan_text hne (not_mem_escapeText (.inl rfl) t) s
    have htake : Build.take ⟨f :: fs, root⟩ (.text (escapeText t))
        = .ok ⟨{ f with element := f.element.appendText t } :: fs, root⟩ := by
      simp only [Build.take, unescape_escapeText]
      rfl
    rw [readFrom_token hscan htake, if_neg (by simp [ht])]

/-! ## §6. THE ROUND TRIP. -/

/-- Reading a written element adds its normal form to what was read before. -/
def ReadsBack (scope : Scope) (e : Element) : Prop :=
  ∀ (b b' : Build) (rest : Text), b.scope = scope → b.add (normalize scope.uri e) = .ok b' →
    readFrom b (writeElement scope e ++ rest) = readFrom b' rest

/-- Written children are read back into the open element one after the other. -/
theorem readFrom_writeElements (fs : List Frame) (root : Option Element) :
    ∀ (es : List Element) (f : Frame) (rest : Text), (∀ e ∈ es, ReadsBack f.scope e) →
      readFrom ⟨f :: fs, root⟩ (writeElements f.scope es ++ rest)
        = readFrom ⟨{ f with
              element := { f.element with
                children := f.element.children ++ es.map (normalize f.scope.uri) } } :: fs, root⟩ rest
  | [], f, rest, _ => by
      obtain ⟨⟨_, _, _, _, _, _⟩, _, _⟩ := f
      simp [writeElements]
  | e :: es, f, rest, h => by
      have he := h e List.mem_cons_self ⟨f :: fs, root⟩
        ⟨{ f with element := f.element.addChild (normalize f.scope.uri e) } :: fs, root⟩
        (writeElements f.scope es ++ rest) rfl rfl
      have hes := readFrom_writeElements fs root es
        { f with element := f.element.addChild (normalize f.scope.uri e) } rest
        (fun x hx => h x (List.mem_cons_of_mem e hx))
      rw [writeElements, List.append_assoc, he, hes]
      simp [Element.addChild]

/-- The content of an element is read into its frame: the text first, then the children. -/
theorem readFrom_content (f : Frame) (fs : List Frame) (root : Option Element) (t : Text)
    {es : List Element} (h : ∀ e ∈ es, ReadsBack f.scope e) (s : Text) :
    readFrom ⟨f :: fs, root⟩ (escapeText t ++ writeElements f.scope es ++ '<' :: s)
      = readFrom ⟨{ f with
            element := { f.element with
              children := f.element.children ++ es.map (normalize f.scope.uri)
              text := if t.isEmpty then f.element.text
                else some (f.element.text.getD [] ++ t) } } :: fs, root⟩ ('<' :: s) := by
  obtain ⟨s', hs'⟩ := writeElements_append_eq_cons f.scope es s
  have hes := readFrom_writeElements fs root es
    { f with element := if t.isEmpty then f.element else f.element.appendText t } ('<' :: s) h
  rw [List.append_assoc, hs', readFrom_escapeText, ← hs', hes]
  by_cases ht : t.isEmpty = true
  · simp only [if_pos ht]
  · simp only [if_neg ht]
    rfl

/-- Blank text beside children goes when the element is closed, empty text was never there. -/
theorem settled_eq_countedText (e : Element) (text : Option Text) (cs : List Element)
    (hcs : cs.isEmpty = e.children.isEmpty) :
    Element.settled { e with
        text := if (text.getD []).isEmpty then none else some ([] ++ text.getD []) }
      = { e with text := countedText cs text } := by
  unfold Element.settled countedText
  rw [hcs]
  cases text with
  | none => simp
  | some t =>
      by_cases ht : t = []
      · simp [ht, Option.filter]
      · by_cases hc : e.children = [] <;> by_cases hb : Text.blank t = true <;>
          simp [ht, hc, hb, Option.filter]

/-- **A well-formed element is read back in its normal form**, wherever it stands. -/
theorem readFrom_writeElement {e : Element} (h : WellFormed e) : ∀ scope, ReadsBack scope e := by
  -- the induction is on the tree: each child stands in the scope that its parent's tag leaves
  induction h with
  | @intro e proper _ ih =>
      intro scope b b' rest hscope hadd
      subst hscope
      have tag := proper.legible
      have hsub : (missing b.scope (neededBindings e.ns e.decls)).Sublist
          (neededBindings e.ns e.decls) := List.filter_sublist
      have hattrs := tag.isKey_of_mem hsub
      have hopen := openElement_write tag b.scope
      have hinner : (declareAll b.scope (neededBindings e.ns e.decls)).2.uri
          = Bindings.inside b.scope.uri e.ns e.decls := uri_declareAll _ _
      rw [normalize_eq, ← hinner] at hadd
      rw [writeElement_eq tag]
      unfold writtenContent
      by_cases hc : (e.text.isNone && e.children.isEmpty) = true
      · rw [if_pos hc]
        simp only [Bool.and_eq_true, Option.isNone_iff_eq_none, List.isEmpty_iff] at hc
        refine readFrom_markupOf_none tag.label hattrs hopen ?_ rest
        rw [hc.1, hc.2] at hadd
        exact hadd
      · rw [if_neg hc]
        have hcontent := readFrom_content (openedFrame b.scope e) b.frames b.root (e.text.getD [])
          (fun c hc => ih c hc (openedFrame b.scope e).scope)
        refine readFrom_markupOf tag.label hattrs hopen rfl hcontent ?_ rest
        rw [← hadd]
        congr 1
        have hcs : e.children.isEmpty = (e.children.map (normalize
            (declareAll b.scope (neededBindings e.ns e.decls)).2.uri)).isEmpty := by
          cases e.children <;> rfl
        exact settled_eq_countedText { e with
          decls := e.decls.filter (fun d => b.scope.uri d.pre ≠ d.uri)
          children := e.children.map (normalize
            (declareAll b.scope (neededBindings e.ns e.decls)).2.uri) } e.text e.children hcs

/-- Behind the first line of a document its root is read. -/
theorem read_declarationLine {s : Text} (hs : ∃ s', s = '<' :: s') (e : Element) :
    read (declarationLine ++ s) = .ok e ↔ readFrom .initial s = .ok e := by
  obtain ⟨s', rfl⟩ := hs
  have hline : scan (declarationLine ++ '<' :: s') = .token .aside ('\n' :: '<' :: s') := rfl
  have hnewline : scan ('\n' :: '<' :: s') = .token (.text ['\n']) ('<' :: s') := rfl
  have hmark : dropMark (declarationLine ++ '<' :: s') = declarationLine ++ '<' :: s' := rfl
  have haside : Build.initial.take .aside = .ok .initial := rfl
  have hblank : Build.initial.take (.text ['\n']) = .ok .initial := rfl
  rw [read_eq_ok_iff, hmark, readFrom_token hline haside, readFrom_token hnewline hblank]

/-- The markup of a well-formed root is read up to the end of the text. -/
theorem readFrom_initial {e : Element} (h : WellFormed e) :
    readFrom .initial (writeElement [] e) = .ok (normalize .unbound e) := by
  have hbuild := readFrom_writeElement h [] .initial ⟨[], some (normalize .unbound e)⟩ [] rfl rfl
  rw [List.append_nil, readFrom_nil] at hbuild
  exact hbuild

/-- **READING UNDOES WRITING**: the document of a well-formed tree of any depth, with any text and
any attribute values, is read, and what is read is the normal form of the tree. -/
theorem read_write (e : Element) (h : WellFormed e) :
    read (write e) = .ok (normalize .unbound e) := by
  unfold write
  rw [read_declarationLine (writeElement_eq_cons [] e)]
  exact readFrom_initial h

/-- A tree whose children take the default namespace back and bind a prefix anew, with a declaration
that is in scope already, blank text and markup characters. -/
def rebinding : Element :=
  ⟨"a".toList, some ⟨[], "u".toList⟩, [⟨"p".toList, "v".toList⟩],
    [⟨"p:k".toList, "\"<'".toList⟩],
    [⟨"b".toList, none, [⟨"p".toList, "v".toList⟩], [], [], some "x&y".toList⟩,
      ⟨"c".toList, some ⟨"p".toList, "w".toList⟩, [⟨[], "u".toList⟩], [], [], some []⟩],
    some " ".toList⟩

theorem wellFormed_rebinding : WellFormed rebinding := by
  have hb : WellFormed rebinding.children[0] :=
    ⟨⟨by decide, nofun, by decide, by decide, by decide, nofun, by decide⟩, nofun⟩
  have hc : WellFormed rebinding.children[1] :=
    ⟨⟨by decide, by rintro _ ⟨⟩; decide, by decide, by decide, by decide, nofun, by decide⟩, nofun⟩
  have hattr : IsAttributeName "p:k".toList := .inr ⟨['p'], ['k'], by decide, by decide, rfl⟩
  refine ⟨⟨by decide, by rintro _ ⟨⟩; decide, by decide, by decide, by decide, ?_, by decide⟩, ?_⟩
  · intro a ha
    obtain rfl := List.mem_singleton.mp ha
    exact ⟨hattr, by decide, by decide⟩
  · intro c hmem
    rcases List.mem_pair.mp hmem with rfl | rfl
    · exact hb
    · exact hc

/-- Of that tree the blank text, the empty text and the repeated declarations are gone. -/
theorem read_write_rebinding :
    WellFormed rebinding
      ∧ read (write rebinding) = .ok
        ⟨"a".toList, some ⟨[], "u".toList⟩, [⟨"p".toList, "v".toList⟩],
          [⟨"p:k".toList, "\"<'".toList⟩],
          [⟨"b".toList, none, [], [], [], some "x&y".toList⟩,
            ⟨"c".toList, some ⟨"p".toList, "w".toList⟩, [], [], [], none⟩],
          none⟩ :=
  ⟨wellFormed_rebinding, (read_write rebinding wellFormed_rebinding).trans rfl⟩

end Crosswalk.Markup
