/-
  Crosswalk.Proofs.Markup.Uniform
  ──────────────────────────────────────
  **TREES IN ONE NAMESPACE.**

  Below the root of a canonical document every element is in the namespace of
  the root and has no attributes (`Uniform`).  Where the prefix is bound, the
  markup of such elements does not depend on the URI (`markupIn`), so it is
  read in any scope that binds the prefix, as the same names and texts in
  another namespace.

  `outline` is what remains of a tree without namespaces and attributes: the
  local names and the texts that count.

    • `outline_normalize`: writing and reading keep the outline,
    • `Declares.read_documentOf`, `Declares.read_documentOf_ne_ok`: when a
      root with any declarations around uniform children can be read, and
      what is read.
-/
import Crosswalk.Proofs.Markup.RoundTrip

namespace Crosswalk.Markup

/-! ## §1. Outlines. -/

mutual

/-- The local names and the texts of a tree, as far as they count. -/
def outline : Element → Element
  | ⟨name, _, _, _, children, text⟩ =>
    { Element.bare name none with
      children := outlineAll children
      text := countedText children text }

/-- The outlines of elements side by side. -/
def outlineAll : List Element → List Element
  | [] => []
  | e :: es => outline e :: outlineAll es

end

theorem outlineAll_eq_map (es : List Element) : outlineAll es = es.map outline := by
  induction es with
  | nil => rfl
  | cons e es ih => rw [outlineAll, ih, List.map_cons]

theorem outlineAll_append (es es' : List Element) :
    outlineAll (es ++ es') = outlineAll es ++ outlineAll es' := by
  simp [outlineAll_eq_map]

theorem outline_eq (e : Element) :
    outline e = { Element.bare e.name none with
      children := outlineAll e.children
      text := countedText e.children e.text } := by
  cases e
  rw [outline]

/-- What counts of a text counts again beside as many children. -/
theorem countedText_countedText {cs cs' : List Element} (h : cs'.isEmpty = cs.isEmpty)
    (t : Option Text) : countedText cs' (countedText cs t) = countedText cs t := by
  unfold countedText
  rw [h, Option.filter_filter]
  simp

mutual

/-- **The normal form of a tree has the outline of the tree.** -/
theorem outline_normalize : ∀ (b : Bindings) (e : Element), outline (normalize b e) = outline e
  | b, ⟨name, ns, decls, attrs, children, text⟩ => by
      have hall := outlineAll_normalizeAll (b.inside ns decls) children
      have hcs : (normalizeAll (b.inside ns decls) children).isEmpty = children.isEmpty := by
        cases children <;> rfl
      rw [normalize, outline, outline, hall, countedText_countedText hcs]

theorem outlineAll_normalizeAll : ∀ (b : Bindings) (es : List Element),
    outlineAll (normalizeAll b es) = outlineAll es
  | _, [] => rfl
  | b, e :: es => by
      rw [normalizeAll, outlineAll, outlineAll, outline_normalize b e,
        outlineAll_normalizeAll b es]

end

/-! ## §2. Uniform trees. -/

/-- Every element of the tree has a valid name, is in the given namespace and has neither
declarations nor attributes. -/
inductive Uniform (ns : Option Namespace) : Element → Prop
  | intro {name : Text} {children : List Element} {text : Option Text}
      (name_valid : isName name = true) (children_uniform : ∀ c ∈ children, Uniform ns c) :
      Uniform ns ⟨name, ns, [], [], children, text⟩

theorem Uniform.wellFormed {ns : Option Namespace} (hns : ∀ n, ns = some n → n.Declarable)
    {e : Element} (h : Uniform ns e) : WellFormed e := by
  induction h with
  | intro hname _ ih =>
      refine .intro ⟨hname, hns, nofun, List.nodup_nil, nofun, nofun, List.nodup_nil⟩ ih

mutual

/-- The names and texts of a tree in a namespace. -/
def within (ns : Option Namespace) : Element → Element
  | ⟨name, _, _, _, children, text⟩ => ⟨name, ns, [], [], withinAll ns children, text⟩

/-- Trees side by side in a namespace. -/
def withinAll (ns : Option Namespace) : List Element → List Element
  | [] => []
  | e :: es => within ns e :: withinAll ns es

end

theorem withinAll_eq_map (ns : Option Namespace) (es : List Element) :
    withinAll ns es = es.map (within ns) := by
  induction es with
  | nil => rfl
  | cons e es ih => rw [withinAll, ih, List.map_cons]

theorem Uniform.within {ns : Option Namespace} (ns' : Option Namespace) {e : Element}
    (h : Uniform ns e) : Uniform ns' (within ns' e) := by
  induction h with
  | @intro name children text hname _ ih =>
      rw [Markup.within, withinAll_eq_map]
      refine .intro hname fun c hc => ?_
      obtain ⟨d, hd, rfl⟩ := List.mem_map.mp hc
      exact ih d hd

mutual

theorem outline_within (ns : Option Namespace) : ∀ e : Element, outline (within ns e) = outline e
  | ⟨name, _, _, _, children, text⟩ => by
      have hcs : (withinAll ns children).isEmpty = children.isEmpty := by
        cases children <;> rfl
      rw [within, outline, outline, outlineAll_withinAll ns children]
      unfold countedText
      rw [hcs]

theorem outlineAll_withinAll (ns : Option Namespace) : ∀ es : List Element,
    outlineAll (withinAll ns es) = outlineAll es
  | [] => rfl
  | e :: es => by
      rw [withinAll, outlineAll, outlineAll, outline_within ns e, outlineAll_withinAll ns es]

end

/-! ## §3. The markup of a uniform tree. -/

/-- What stands between the tags of an element, given the markup of its children. -/
def contentOf (text : Option Text) (children : List Element) (inner : Text) : Option Text :=
  if text.isNone && children.isEmpty then none else some (escapeText (text.getD []) ++ inner)

theorem eq_of_contentOf_eq_some {text : Option Text} {children : List Element}
    {inner content : Text} (h : contentOf text children inner = some content) :
    content = escapeText (text.getD []) ++ inner := by
  unfold contentOf at h
  split at h
  next => exact absurd h (by simp)
  next => exact (Option.some.inj h).symm

mutual

/-- The markup of a tree that has one prefix, bound around it. -/
def markupIn (pre : Text) : Element → Text
  | ⟨name, _, _, _, children, text⟩ =>
    markupOf (qualify pre name) [] (contentOf text children (markupsIn pre children))

/-- The markup of trees side by side. -/
def markupsIn (pre : Text) : List Element → Text
  | [] => []
  | e :: es => markupIn pre e ++ markupsIn pre es

end

theorem markupsIn_append (pre : Text) (es es' : List Element) :
    markupsIn pre (es ++ es') = markupsIn pre es ++ markupsIn pre es' := by
  induction es with
  | nil => rfl
  | cons e es ih => rw [List.cons_append, markupsIn, markupsIn, ih, List.append_assoc]

mutual

theorem markupIn_within (pre : Text) (ns : Option Namespace) : ∀ e : Element,
    markupIn pre (within ns e) = markupIn pre e
  | ⟨name, _, _, _, children, text⟩ => by
      have hcs : (withinAll ns children).isEmpty = children.isEmpty := by
        cases children <;> rfl
      rw [within, markupIn, markupIn, markupsIn_withinAll pre ns children, contentOf, contentOf,
        hcs]

theorem markupsIn_withinAll (pre : Text) (ns : Option Namespace) : ∀ es : List Element,
    markupsIn pre (withinAll ns es) = markupsIn pre es
  | [] => rfl
  | e :: es => by
      rw [withinAll, markupsIn, markupsIn, markupIn_within pre ns e, markupsIn_withinAll pre ns es]

end

/-- The prefix of a namespace, empty for none. -/
def prefixOf (ns : Option Namespace) : Text :=
  (ns.map Namespace.pre).getD []

/-- The scope binds the prefix to the namespace, or no default namespace when there is none. -/
def Bound (scope : Scope) (ns : Option Namespace) : Prop :=
  scope.uri (prefixOf ns) = (ns.map Namespace.uri).getD []

theorem writeElements_eq_markupsIn {scope : Scope} {pre : Text} {es : List Element}
    (h : ∀ e ∈ es, writeElement scope e = markupIn pre e) :
    writeElements scope es = markupsIn pre es := by
  induction es with
  | nil => rfl
  | cons e es ih =>
      rw [writeElements, markupsIn, h e List.mem_cons_self,
        ih fun d hd => h d (List.mem_cons_of_mem e hd)]

/-- Where its namespace is bound, an element without declarations is written as its content in its
tags, whatever its name is. -/
theorem writeElement_eq_markupOf {scope : Scope} {ns : Option Namespace} (hb : Bound scope ns)
    (name : Text) {children : List Element}
    (h : ∀ c ∈ children, writeElement scope c = markupIn (prefixOf ns) c) (text : Option Text) :
    writeElement scope ⟨name, ns, [], [], children, text⟩
      = markupOf (qualify (prefixOf ns) name) []
          (contentOf text children (markupsIn (prefixOf ns) children)) := by
  have hin : declareIfNeeded scope (ns.getD ⟨[], []⟩) = ([], scope) := by
    unfold declareIfNeeded
    rw [if_pos]
    unfold Bound prefixOf at hb
    cases ns <;> exact hb
  have hall : declareAll scope (neededBindings ns []) = ([], scope) := by
    rw [neededBindings, declareAll, hin]
    rfl
  rw [writeElement, hall]
  simp only
  rw [writeElements_eq_markupsIn h]
  unfold contentOf
  split
  next hc => simp [markupOf, tagBody, prefixOf]
  next hc => simp [markupOf, tagBody, prefixOf]

/-- **Where its namespace is bound, a uniform tree is written without declarations.** -/
theorem writeElement_eq_markupIn {scope : Scope} {ns : Option Namespace} (hb : Bound scope ns)
    {e : Element} (h : Uniform ns e) : writeElement scope e = markupIn (prefixOf ns) e := by
  induction h with
  | @intro name children text _ _ ih =>
      rw [markupIn]
      exact writeElement_eq_markupOf hb name ih text

/-! ## §4. Reading uniform trees in any scope. -/

/-- The namespace that a prefix stands for in a scope. -/
def spaceOf (scope : Scope) (pre : Text) : Option Namespace :=
  if scope.uri pre = [] then none else some ⟨pre, scope.uri pre⟩

theorem prefixOf_spaceOf {scope : Scope} {pre : Text} (h : pre = [] ∨ scope.uri pre ≠ []) :
    prefixOf (spaceOf scope pre) = pre := by
  unfold spaceOf
  by_cases hu : scope.uri pre = []
  · rw [if_pos hu]
    exact (h.resolve_right (fun hne => hne hu)).symm
  · rw [if_neg hu]
    rfl

theorem bound_spaceOf {scope : Scope} {pre : Text} (h : pre = [] ∨ scope.uri pre ≠ []) :
    Bound scope (spaceOf scope pre) := by
  unfold Bound
  rw [prefixOf_spaceOf h]
  unfold spaceOf
  by_cases hu : scope.uri pre = []
  · rw [if_pos hu, hu]
    rfl
  · rw [if_neg hu]
    rfl

/-- **Uniform markup is read wherever its prefix is bound**, as children with the same outlines. -/
theorem readFrom_markupsIn (f : Frame) (fs : List Frame) (root : Option Element)
    {ns : Option Namespace} {pre : Text} {es : List Element} (hes : ∀ e ∈ es, Uniform ns e)
    (hpre : pre = [] ∨ isName pre = true ∧ f.scope.uri pre ≠ []) :
    ∃ es', outlineAll es' = outlineAll es ∧ ∀ rest,
      readFrom ⟨f :: fs, root⟩ (markupsIn pre es ++ rest)
        = readFrom ⟨{ f with
            element := { f.element with children := f.element.children ++ es' } } :: fs, root⟩
          rest := by
  have hbound : pre = [] ∨ f.scope.uri pre ≠ [] := hpre.imp_right And.right
  -- the markup does not tell the namespace, so it is also that of the trees the reader will make
  have hwritten : writeElements f.scope (withinAll (spaceOf f.scope pre) es) = markupsIn pre es := by
    rw [← markupsIn_withinAll pre (spaceOf f.scope pre) es, withinAll_eq_map]
    apply writeElements_eq_markupsIn
    intro e he
    obtain ⟨d, hd, rfl⟩ := List.mem_map.mp he
    rw [writeElement_eq_markupIn (bound_spaceOf hbound) ((hes d hd).within _),
      prefixOf_spaceOf hbound]
  have hdeclarable : ∀ n, spaceOf f.scope pre = some n → n.Declarable := by
    unfold spaceOf
    intro n hn
    split at hn
    next => exact absurd hn (by simp)
    next hu =>
      rw [← Option.some.inj hn]
      exact ⟨hpre.imp_right And.left, hu⟩
  refine ⟨(withinAll (spaceOf f.scope pre) es).map (normalize f.scope.uri), ?_, fun rest => ?_⟩
  · rw [← normalizeAll_eq_map, outlineAll_normalizeAll, outlineAll_withinAll]
  · rw [← hwritten]
    refine readFrom_writeElements fs root _ f rest fun e he => ?_
    rw [withinAll_eq_map] at he
    obtain ⟨d, hd, rfl⟩ := List.mem_map.mp he
    exact readFrom_writeElement (((hes d hd).within _).wellFormed hdeclarable) _

/-! ## §5. Documents with uniform children. -/

/-- A document of a root with the given declarations and children, and without text. -/
def documentOf (tag : Text) (bindings : List Namespace) (pre : Text) (es : List Element) : Text :=
  declarationLine
    ++ markupOf tag (bindings.map Namespace.attribute) (contentOf none es (markupsIn pre es))

/-- What stands before the declarations in the tag of the root. -/
def opening (tag : Text) : Text :=
  declarationLine ++ '<' :: tag

/-- What follows the declarations in the tag of the root. -/
def closing (tag pre : Text) (es : List Element) : Text :=
  if es.isEmpty then ['/', '>']
  else '>' :: (markupsIn pre es ++ '<' :: '/' :: (tag ++ ['>']))

theorem closing_of_ne_nil {es : List Element} (h : es ≠ []) (tag pre : Text) :
    closing tag pre es = '>' :: (markupsIn pre es ++ '<' :: '/' :: (tag ++ ['>'])) := by
  unfold closing
  rw [if_neg (by simp [h])]

theorem documentOf_eq (tag : Text) (bindings : List Namespace) (pre : Text) (es : List Element) :
    documentOf tag bindings pre es = opening tag
      ++ ((bindings.map Namespace.attribute).flatMap Attribute.write ++ closing tag pre es) := by
  unfold documentOf contentOf opening closing
  cases es with
  | nil => simp [markupOf, tagBody]
  | cons e es =>
      have hnil : escapeText [] = [] := rfl
      simp [markupOf, tagBody, hnil]

theorem documentOf_singleton (tag : Text) (b : Namespace) (pre : Text) (es : List Element) :
    documentOf tag [b] pre es = opening tag ++ (b.attribute.write ++ closing tag pre es) := by
  rw [documentOf_eq]
  simp

theorem documentOf_pair (tag : Text) (b c : Namespace) (pre : Text) (es : List Element) :
    documentOf tag [b, c] pre es
      = opening tag ++ (b.attribute.write ++ (c.attribute.write ++ closing tag pre es)) := by
  rw [documentOf_eq]
  simp

/-- Bindings that one tag can declare. -/
structure Declares (bindings : List Namespace) : Prop where
  names : ∀ b ∈ bindings, b.pre = [] ∨ IsTagName b.pre
  uris : ∀ b ∈ bindings, b.uri ≠ []
  prefixes : (bindings.map Namespace.pre).Nodup

theorem declares_nil : Declares [] :=
  ⟨nofun, nofun, List.nodup_nil⟩

theorem declares_singleton {b : Namespace} (hb : b.pre = [] ∨ IsTagName b.pre)
    (huri : b.uri ≠ []) : Declares [b] :=
  ⟨by simpa using hb, by simpa using huri, by simp⟩

theorem declares_pair {b c : Namespace} (hb : b.pre = [] ∨ IsTagName b.pre)
    (hc : c.pre = [] ∨ IsTagName c.pre) (hburi : b.uri ≠ []) (hcuri : c.uri ≠ [])
    (hne : b.pre ≠ c.pre) : Declares [b, c] :=
  ⟨by simpa using ⟨hb, hc⟩, by simpa using ⟨hburi, hcuri⟩, by simpa using hne⟩

theorem binding?_eq_none {scope : Scope} {pre : Text} :
    scope.binding? pre = none ↔ pre ∉ scope.map Namespace.pre := by
  unfold Scope.binding?
  simp

/-- The attributes of bindings declare these bindings. -/
theorem filterMap_attribute (bindings : List Namespace) :
    (bindings.map Namespace.attribute).filterMap Attribute.binding? = bindings := by
  have hfilter := @filterMap_binding? bindings [] nofun
  rwa [List.append_nil] at hfilter

namespace Declares

variable {bindings : List Namespace} (h : Declares bindings)
include h

theorem isKey : ∀ a ∈ bindings.map Namespace.attribute, IsKey a.name := by
  intro a ha
  obtain ⟨b, hb, rfl⟩ := List.mem_map.mp ha
  exact (Namespace.isTagName_declarationName (h.names b hb)).isKey

/-- What the tag with these declarations opens depends on the prefix alone. -/
theorem openElement_eq {tag p name : Text} (ht : OpensTag tag)
    (hsplit : splitQualified tag = (p, name)) :
    openElement (tagBody tag (bindings.map Namespace.attribute)) []
      = match resolve? bindings.reverse p with
        | some ns => .ok (frameOf tag name (bindings.map Namespace.attribute) [] ns)
        | none => .error (.unboundPrefix p tag) := by
  have hnodup : ((bindings.map Namespace.attribute).map Attribute.name).Nodup := by
    rw [List.map_map]
    exact nodup_declarationName h.prefixes
  have hopen := openElement_tagBody ht hsplit h.isKey hnodup []
  rw [filterMap_attribute, List.append_nil] at hopen
  exact hopen

/-- A prefix that the tag declares is resolved to its binding. -/
theorem resolve?_of_mem {b : Namespace} (hb : b ∈ bindings) :
    resolve? bindings.reverse b.pre = some (some b) := by
  have hbinding : Scope.binding? bindings.reverse b.pre = some b := by
    cases hc : Scope.binding? bindings.reverse b.pre with
    | none =>
        rw [binding?_eq_none, List.map_reverse, List.mem_reverse] at hc
        exact absurd (List.mem_map_of_mem hb) hc
    | some c =>
        have hmem : c ∈ bindings := List.mem_reverse.mp (List.mem_of_find?_eq_some hc)
        have hpre : c.pre = b.pre := by simpa using List.find?_some hc
        rw [List.inj_on_of_nodup_map h.prefixes hmem hb hpre]
  unfold resolve?
  rw [hbinding]
  simp [h.uris b hb]

/-- A prefix that the tag declares is bound to a URI that is not empty. -/
theorem uri_ne_nil {pre : Text} (hpre : pre ∈ bindings.map Namespace.pre) :
    Scope.uri bindings.reverse pre ≠ [] := by
  cases hb : Scope.binding? bindings.reverse pre with
  | none =>
      rw [binding?_eq_none, List.map_reverse, List.mem_reverse] at hb
      exact absurd hpre hb
  | some b =>
      have hmem : b ∈ bindings := List.mem_reverse.mp (List.mem_of_find?_eq_some hb)
      unfold Scope.uri
      rw [hb]
      exact h.uris b hmem

/-- **A document whose prefixes are bound is read**, with the outline it was made of and the
namespace that the prefix of its root stands for. -/
theorem read_documentOf {tag p pre name : Text} {own ns : Option Namespace} {es : List Element}
    (ht : OpensTag tag) (hsplit : splitQualified tag = (p, name))
    (hown : resolve? bindings.reverse p = some own) (hes : ∀ e ∈ es, Uniform ns e)
    (hpre : pre = [] ∨ isName pre = true ∧ pre ∈ bindings.map Namespace.pre) :
    ∃ e, read (documentOf tag bindings pre es) = .ok e ∧ e.ns = own
      ∧ outline e = { Element.bare name none with children := outlineAll es } := by
  have hopen := h.openElement_eq ht hsplit
  rw [hown] at hopen
  simp only at hopen
  let f : Frame := frameOf tag name (bindings.map Namespace.attribute) [] own
  unfold documentOf
  simp only [read_declarationLine (markupOf_eq_cons _ _ _)]
  unfold contentOf
  by_cases hc : es = []
  · -- without children the root is one empty tag
    subst hc
    have hadd : Build.initial.add f.element = .ok ⟨[], some f.element⟩ := rfl
    have hread := readFrom_markupOf_none ht h.isKey (b := .initial) hopen hadd []
    rw [List.append_nil, readFrom_nil] at hread
    exact ⟨_, hread, rfl, outline_eq _⟩
  · have hscope : f.scope = bindings.reverse := by
      simp only [f, frameOf, filterMap_attribute, List.append_nil]
    obtain ⟨es', hes', hread⟩ := readFrom_markupsIn f [] none hes
      (hpre.imp_right fun hb => ⟨hb.1, by rw [hscope]; exact h.uri_ne_nil hb.2⟩)
    let e : Element := { f.element with children := es' }
    have hadd : Build.initial.add e.settled = .ok ⟨[], some e⟩ := by
      have hsettled : e.settled = e := by simp [Element.settled, e, f, frameOf]
      rw [hsettled]
      rfl
    have hdoc := readFrom_markupOf ht h.isKey (b := .initial) hopen rfl
      (fun s => hread ('<' :: s)) hadd []
    rw [List.append_nil, readFrom_nil] at hdoc
    rw [if_neg (by simp [hc])]
    refine ⟨e, hdoc, rfl, ?_⟩
    rw [outline_eq, ← hes']
    rfl

/-- A document whose root has an unbound prefix is not read. -/
theorem read_documentOf_ne_ok {tag p pre name : Text} {es : List Element} (ht : OpensTag tag)
    (hsplit : splitQualified tag = (p, name)) (hun : resolve? bindings.reverse p = none)
    (e : Element) : read (documentOf tag bindings pre es) ≠ .ok e := by
  have hopen := h.openElement_eq ht hsplit
  rw [hun] at hopen
  unfold documentOf
  rw [Ne, read_declarationLine (markupOf_eq_cons _ _ _),
    readFrom_markupOf_refused (ht.isBody h.isKey) (b := .initial) hopen]
  exact nofun

end Declares

end Crosswalk.Markup
