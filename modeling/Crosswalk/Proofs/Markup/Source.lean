/-
  Crosswalk.Proofs.Markup.Source
  ──────────────────────────────────────
  **WHAT A DOCUMENT DENOTES.**

  A `Document` is made of elements, text, character sections, comments and
  instructions, with comments, instructions and blank text around its root;
  its markup is that of its pieces.  What it denotes is said from the document
  alone: a prefix stands for the nearest declaration of it, on the tag itself
  or on one around it (`nearest?`), and no list of bindings is kept.

    • `Document.Bound`: every prefix has a declaration,
    • `Document.tree`: the tree that the document denotes,
    • `openElement_startTag`: a tag is opened as it is meant, in any scope that
      follows the tags around it (`Scope.Follows`),
    • `read_markup`: the reader gives the tree that the document denotes, or
      reports an unbound prefix.
-/
import Crosswalk.Proofs.Markup.Piece

namespace Crosswalk.Markup

/-! ## §1. Documents. -/

/-- The tag of an element, with its declarations among its attributes. -/
structure StartTag where
  pre : Text
  name : Text
  attrs : List Attribute
  pre_valid : pre = [] ∨ isName pre = true
  name_valid : isName name = true
  attrs_valid : ∀ a ∈ attrs, IsAttributeName a.name
  attrs_nodup : (attrs.map Attribute.name).Nodup

/-- What is no content of the element it stands in. -/
inductive Note
  | comment (t : Text) (h : '>' ∉ t)
  | instruction (t : Text) (h : '>' ∉ t)

/-- An item of the content of an element. -/
inductive Item
  | text (t : Text)
  | cdata (t : Text) (h : ¬ "]]>".toList <:+: t)
  | note (n : Note)
  /-- An element without content, written with a single tag. -/
  | leaf (tag : StartTag)
  | node (tag : StartTag) (items : List Item)

/-- What may stand beside the root. -/
inductive Margin
  | note (n : Note)
  | blank (t : Text) (h : Text.blank t = true)

/-- A document; without content its root is written with a single tag. -/
structure Document where
  before : List Margin
  root : StartTag
  content : Option (List Item)
  after : List Margin

/-! ## §2. Documents as markup. -/

/-- The name of the element with its prefix. -/
def StartTag.label (tag : StartTag) : Text :=
  qualify tag.pre tag.name

def Note.piece : Note → Piece
  | comment t _ => .comment t
  | instruction t _ => .instruction t

def Margin.piece : Margin → Piece
  | note n => n.piece
  | blank t _ => .text t

mutual

/-- The pieces of an item. -/
def Item.pieces : Item → List Piece
  | .text t => [.text t]
  | .cdata t _ => [.cdata t]
  | .note n => [n.piece]
  | .leaf tag => [.empty tag.label tag.attrs]
  | .node tag items => .start tag.label tag.attrs :: (piecesOf items ++ [.close tag.label])

/-- The pieces of items side by side. -/
def piecesOf : List Item → List Piece
  | [] => []
  | i :: is => i.pieces ++ piecesOf is

end

namespace Document

/-- The root as an item. -/
def rootItem (d : Document) : Item :=
  match d.content with
  | none => .leaf d.root
  | some items => .node d.root items

/-- The pieces of a document. -/
def pieces (d : Document) : List Piece :=
  d.before.map Margin.piece ++ (d.rootItem.pieces ++ d.after.map Margin.piece)

/-- The text of a document. -/
def markup (d : Document) : Text :=
  markups d.pieces

end Document

/-! ## §3. What a document denotes. -/

/-- The bindings that a tag declares. -/
def StartTag.declared (tag : StartTag) : List Namespace :=
  tag.attrs.filterMap Attribute.binding?

/-- The URI that a tag declares for a prefix. -/
def StartTag.declared? (tag : StartTag) (pre : Text) : Option Text :=
  (tag.declared.find? (·.pre = pre)).map Namespace.uri

/-- The URI of the nearest declaration of a prefix; the innermost tag comes first. -/
def nearest? (tags : List StartTag) (pre : Text) : Option Text :=
  tags.findSome? (·.declared? pre)

namespace StartTag

/-- The prefix is empty, or declared on the tag or on a tag around it. -/
def Bound (around : List StartTag) (tag : StartTag) : Prop :=
  tag.pre = [] ∨ (nearest? (tag :: around) tag.pre).isSome = true

instance (around : List StartTag) (tag : StartTag) : Decidable (tag.Bound around) :=
  inferInstanceAs (Decidable (_ ∨ _))

/-- The namespace of the nearest declaration of the prefix; none when there is no declaration, or
when it takes the prefix back. -/
def space (around : List StartTag) (tag : StartTag) : Option Namespace :=
  ((nearest? (tag :: around) tag.pre).filter (· ≠ [])).map (Namespace.mk tag.pre)

/-- The element of a tag. -/
def element (around : List StartTag) (tag : StartTag) (children : List Element)
    (text : Option Text) : Element where
  name := tag.name
  ns := tag.space around
  decls := tag.declared.filter (fun d => some d ≠ tag.space around && !d.uri.isEmpty)
  attrs := tag.attrs.filter (fun a => a.binding?.isNone)
  children := children
  text := text

end StartTag

/-- The characters of an item, if it has any to give; an empty text is not there. -/
def Item.characters? : Item → Option Text
  | .text t => if t = [] then none else some t
  | .cdata t _ => some t
  | .note _ => none
  | .leaf _ => none
  | .node _ _ => none

/-- The text beside the children: none without characters, and none that is blank beside a child. -/
def textBeside (children : List Element) (items : List Item) : Option Text :=
  match items.filterMap Item.characters? with
  | [] => none
  | ts => if children ≠ [] ∧ Text.blank ts.flatten then none else some ts.flatten

mutual

/-- The element that an item denotes inside the tags around it, as a list. -/
def Item.elements (around : List StartTag) : Item → List Element
  | .text _ => []
  | .cdata _ _ => []
  | .note _ => []
  | .leaf tag => [tag.element around [] none]
  | .node tag items =>
    let children := elementsOf (tag :: around) items
    [tag.element around children (textBeside children items)]

/-- The elements that items denote, in order. -/
def elementsOf (around : List StartTag) : List Item → List Element
  | [] => []
  | i :: is => i.elements around ++ elementsOf around is

end

mutual

/-- Every prefix in the item has a declaration. -/
def Item.Bound (around : List StartTag) : Item → Prop
  | .text _ => True
  | .cdata _ _ => True
  | .note _ => True
  | .leaf tag => tag.Bound around
  | .node tag items => tag.Bound around ∧ AllBound (tag :: around) items

/-- Every prefix in the items has a declaration. -/
def AllBound (around : List StartTag) : List Item → Prop
  | [] => True
  | i :: is => i.Bound around ∧ AllBound around is

end

mutual

def Item.decideBound (around : List StartTag) : (i : Item) → Decidable (i.Bound around)
  | .text _ => .isTrue trivial
  | .cdata _ _ => .isTrue trivial
  | .note _ => .isTrue trivial
  | .leaf tag => inferInstanceAs (Decidable (tag.Bound around))
  | .node tag items =>
    have := decideAllBound (tag :: around) items
    inferInstanceAs (Decidable (_ ∧ _))

def decideAllBound (around : List StartTag) : (is : List Item) → Decidable (AllBound around is)
  | [] => .isTrue trivial
  | i :: is =>
    have := i.decideBound around
    have := decideAllBound around is
    inferInstanceAs (Decidable (_ ∧ _))

end

namespace Document

/-- Every prefix in the document has a declaration, on its own tag or on one around it. -/
def Bound (d : Document) : Prop :=
  d.root.Bound [] ∧ AllBound [d.root] (d.content.getD [])

instance (d : Document) : Decidable d.Bound :=
  have := decideAllBound [d.root] (d.content.getD [])
  inferInstanceAs (Decidable (_ ∧ _))

/-- The tree that the document denotes. -/
def tree (d : Document) : Element :=
  let items := d.content.getD []
  let children := elementsOf [d.root] items
  d.root.element [] children (textBeside children items)

end Document

/-! ## §4. Tags in a scope. -/

namespace StartTag

variable (tag : StartTag)

theorem opensTag_label : OpensTag tag.label :=
  (isTagName_qualify tag.pre_valid tag.name_valid).opensTag

theorem isKey_of_mem : ∀ a ∈ tag.attrs, IsKey a.name := fun a ha =>
  (tag.attrs_valid a ha).isTagName.isKey

theorem splitQualified_label : splitQualified tag.label = (tag.pre, tag.name) := by
  have hpre : ':' ∉ tag.pre := by
    rcases tag.pre_valid with h | h
    · rw [h]
      simp
    · exact colon_not_mem_of_isName h
  exact splitQualified_qualify hpre fun _ => colon_not_mem_of_isName tag.name_valid

end StartTag

/-- A valid attribute that declares a binding is the one that would be written for it. -/
theorem eq_attribute_of_binding? {a : Attribute} (ha : IsAttributeName a.name) {b : Namespace}
    (hb : a.binding? = some b) : a = b.attribute := by
  obtain ⟨name, value⟩ := a
  unfold Attribute.binding? at hb
  by_cases hx : name = "xmlns".toList
  · rw [if_pos hx] at hb
    obtain rfl := Option.some.inj hb
    subst hx
    rfl
  · rw [if_neg hx] at hb
    obtain ⟨p, hp, rfl⟩ := Option.map_eq_some_iff.mp hb
    obtain rfl := (List.isPrefixOf?_eq_some_iff_append_eq.mp hp).symm
    -- a colon stands between two names, so the prefix is not empty
    have hne : p ≠ [] := by
      rintro rfl
      rcases ha with h | ⟨q, n, hq, hn, heq⟩
      · exact absurd (isNameChar_of_mem h ':' (by simp)) (by decide)
      · have hend : "xmlns".toList ++ ':' :: [] = q ++ ':' :: n := heq
        obtain ⟨-, rfl⟩ := Text.first_mark (by decide) (colon_not_mem_of_isName hq) hend
        exact absurd hn (by decide)
    have hnd : (p.isEmpty) = false := by simp [hne]
    unfold Namespace.attribute Namespace.declarationName Namespace.isDefault
    rw [if_neg (by simp [hnd])]

/-- A tag declares each prefix at most once. -/
theorem StartTag.nodup_declared (tag : StartTag) : (tag.declared.map Namespace.pre).Nodup := by
  have hattrs : tag.attrs.Pairwise (fun a b => a.name ≠ b.name) := by
    have h := tag.attrs_nodup
    rwa [List.Nodup, List.pairwise_map] at h
  unfold StartTag.declared
  rw [List.Nodup, List.pairwise_map, List.pairwise_filterMap]
  refine hattrs.imp_of_mem ?_
  intro a a' hmem hmem' hne b hb b' hb' hpre
  -- attributes with one prefix would be one and the same name
  apply hne
  rw [eq_attribute_of_binding? (tag.attrs_valid a hmem) hb,
    eq_attribute_of_binding? (tag.attrs_valid a' hmem') hb']
  show b.declarationName = b'.declarationName
  unfold Namespace.declarationName Namespace.isDefault
  rw [hpre]

/-- Among different prefixes it does not matter from which end one is looked for. -/
theorem find?_reverse {bs : List Namespace} (h : (bs.map Namespace.pre).Nodup) (pre : Text) :
    bs.reverse.find? (·.pre = pre) = bs.find? (·.pre = pre) := by
  induction bs with
  | nil => rfl
  | cons b bs ih =>
      obtain ⟨hfresh, hd⟩ := List.nodup_cons.mp h
      rw [List.reverse_cons, List.find?_append, ih hd]
      by_cases hb : b.pre = pre
      · have hnone : bs.find? (·.pre = pre) = none := by
          rw [List.find?_eq_none]
          intro m hm heq
          apply hfresh
          rw [hb, ← of_decide_eq_true heq]
          exact List.mem_map_of_mem hm
        rw [hnone]
        simp [hb]
      · simp [hb]

/-- The first binding of each prefix in a scope is the nearest declaration in the tags around. -/
def Scope.Follows (scope : Scope) (around : List StartTag) : Prop :=
  ∀ pre, scope.binding? pre = (nearest? around pre).map (Namespace.mk pre)

theorem follows_nil : Scope.Follows [] [] := fun _ => rfl

/-- The scope inside a tag follows the tag and those around it. -/
theorem Scope.Follows.inside {scope : Scope} {around : List StartTag} (h : scope.Follows around)
    (tag : StartTag) : Scope.Follows (tag.declared.reverse ++ scope) (tag :: around) := by
  intro pre
  unfold Scope.binding?
  rw [List.find?_append, find?_reverse tag.nodup_declared]
  unfold nearest? StartTag.declared?
  rw [List.findSome?_cons]
  cases hfind : tag.declared.find? (·.pre = pre) with
  | none => exact h pre
  | some b =>
      have hpre : b.pre = pre := by simpa using List.find?_some hfind
      show some b = some ⟨pre, b.uri⟩
      rw [← hpre]

/-- The prefix of a tag is resolved to the namespace that is meant, if it is bound at all. -/
theorem resolve?_startTag {inner : Scope} {around : List StartTag} {tag : StartTag}
    (h : inner.Follows (tag :: around)) :
    resolve? inner tag.pre = if tag.Bound around then some (tag.space around) else none := by
  unfold resolve?
  rw [h tag.pre]
  by_cases hb : tag.Bound around
  · rw [if_pos hb]
    unfold StartTag.space
    cases hnear : nearest? (tag :: around) tag.pre with
    | none =>
        have hpre : tag.pre = [] := hb.resolve_right (by simp [hnear])
        simp [hpre]
    | some uri => by_cases hu : uri = [] <;> simp [hu, Option.filter]
  · rw [if_neg hb]
    unfold StartTag.Bound at hb
    rw [not_or, Option.not_isSome_iff_eq_none] at hb
    simp [hb.1, hb.2]

/-- **A tag is opened as it is meant**: its element has no content yet. -/
theorem openElement_startTag {scope : Scope} {around : List StartTag} (h : scope.Follows around)
    (tag : StartTag) :
    openElement (tagBody tag.label tag.attrs) scope
      = if tag.Bound around then
          .ok ⟨tag.element around [] none, tag.label, tag.declared.reverse ++ scope⟩
        else .error (.unboundPrefix tag.pre tag.label) := by
  rw [openElement_tagBody tag.opensTag_label tag.splitQualified_label tag.isKey_of_mem
    tag.attrs_nodup scope]
  have hresolve := resolve?_startTag (h.inside tag)
  unfold StartTag.declared at hresolve
  rw [hresolve]
  have hnodup : (tag.declared.filter
      (fun d => some d ≠ tag.space around && !d.uri.isEmpty)).Nodup :=
    (List.Nodup.of_map Namespace.pre tag.nodup_declared).filter _
  by_cases hb : tag.Bound around
  · rw [if_pos hb, if_pos hb]
    show Except.ok (frameOf _ _ _ _ _) = _
    unfold frameOf
    rw [show tag.attrs.filterMap Attribute.binding? = tag.declared from rfl,
      distinct_of_nodup hnodup]
    rfl
  · rw [if_neg hb, if_neg hb]

/-! ## §5. What the pieces of a document do. -/

/-- The pieces do what they should when the prefixes are bound; otherwise one that is not bound is
reported. -/
def Outcome (bound : Prop) (b : Build) (r : Except Cause Build) : Prop :=
  (bound → r = .ok b) ∧ (¬ bound → ∃ pre label, r = .error (.unboundPrefix pre label))

theorem Outcome.ok (b : Build) : Outcome True b (.ok b) :=
  ⟨fun _ => rfl, fun h => absurd trivial h⟩

/-- One outcome after the other: the first prefix that is not bound counts. -/
theorem Outcome.bind {p q : Prop} {b c : Build} {r : Except Cause Build}
    {k : Build → Except Cause Build} (h : Outcome p b r) (hk : Outcome q c (k b)) :
    Outcome (p ∧ q) c (r >>= k) := by
  refine ⟨fun hpq => ?_, fun hpq => ?_⟩
  · rw [h.1 hpq.1]
    exact hk.1 hpq.2
  · by_cases hp : p
    · rw [h.1 hp]
      exact hk.2 fun hq => hpq ⟨hp, hq⟩
    · obtain ⟨pre, label, hr⟩ := h.2 hp
      rw [hr]
      exact ⟨pre, label, rfl⟩

/-- Texts added to a text one after the other. -/
def addTexts (text : Option Text) (ts : List Text) : Option Text :=
  ts.foldl (fun text t => some (text.getD [] ++ t)) text

/-- The frame with items read into its element. -/
def Frame.fill (f : Frame) (around : List StartTag) (items : List Item) : Frame :=
  { f with
    element := { f.element with
      children := f.element.children ++ elementsOf around items
      text := addTexts f.element.text (items.filterMap Item.characters?) } }

theorem Frame.fill_nil (f : Frame) (around : List StartTag) : f.fill around [] = f := by
  obtain ⟨⟨_, _, _, _, _, _⟩, _, _⟩ := f
  simp [Frame.fill, elementsOf, addTexts]

theorem Frame.fill_cons (f : Frame) (around : List StartTag) (i : Item) (is : List Item) :
    (f.fill around [i]).fill around is = f.fill around (i :: is) := by
  have htexts : ∀ is' : List Item, addTexts f.element.text ((i :: is').filterMap Item.characters?)
      = addTexts (addTexts f.element.text ([i].filterMap Item.characters?))
          (is'.filterMap Item.characters?) := by
    intro is'
    unfold addTexts
    rw [← List.foldl_append, ← List.filterMap_append]
    rfl
  unfold Frame.fill
  rw [htexts is]
  simp [elementsOf]

theorem addTexts_some (s : Text) : ∀ ts : List Text, addTexts (some s) ts = some (s ++ ts.flatten)
  | [] => by
      show some s = _
      simp
  | t :: ts => by
      show addTexts (some (s ++ t)) ts = _
      rw [addTexts_some (s ++ t) ts]
      simp

/-- The frame that a tag opens. -/
def StartTag.frame (tag : StartTag) (around : List StartTag) (scope : Scope) : Frame :=
  ⟨tag.element around [] none, tag.label, tag.declared.reverse ++ scope⟩

/-- A complete element keeps the text that counts beside its children. -/
theorem settled_fill (around inside : List StartTag) (tag : StartTag) (items : List Item)
    (scope : Scope) :
    ((tag.frame around scope).fill inside items).element.settled
      = tag.element around (elementsOf inside items) (textBeside (elementsOf inside items) items) := by
  unfold StartTag.frame Frame.fill textBeside
  cases hts : items.filterMap Item.characters? with
  | nil => simp [Element.settled, StartTag.element, addTexts]
  | cons t ts =>
      have hall : addTexts none (t :: ts) = some ((t :: ts).flatten) := addTexts_some ([] ++ t) ts
      have htext : (tag.element around [] none).text = none := rfl
      simp only [htext, hall]
      unfold Element.settled
      generalize (t :: ts).flatten = u
      cases hc : elementsOf inside items with
      | nil => simp [StartTag.element]
      | cons c cs =>
          by_cases hblank : Text.blank u = true
          · simp [StartTag.element, hblank]
          · simp [StartTag.element, hblank]

/-- The tag of an element without content adds the element. -/
theorem outcome_leaf {b b' : Build} {around : List StartTag} {tag : StartTag}
    (h : b.scope.Follows around) (hadd : b.add (tag.element around [] none) = .ok b') :
    Outcome (tag.Bound around) b' (b.run (Item.leaf tag).pieces) := by
  have hrun : b.run (Item.leaf tag).pieces = b.take (.empty (tagBody tag.label tag.attrs)) := by
    show b.run [.empty tag.label tag.attrs] = _
    rw [b.run_singleton, b.step_mark (.empty _ _) trivial]
    rfl
  rw [hrun, Build.take, openElement_startTag h tag]
  refine ⟨fun hb => ?_, fun hb => ?_⟩
  · rw [if_pos hb]
    exact hadd
  · rw [if_neg hb]
    exact ⟨_, _, rfl⟩

/-- A start tag opens its element. -/
theorem outcome_start {b : Build} {around : List StartTag} (h : b.scope.Follows around)
    (tag : StartTag) :
    Outcome (tag.Bound around) ⟨tag.frame around b.scope :: b.frames, b.root⟩
      (b.step (.start tag.label tag.attrs)) := by
  have htake : b.step (.start tag.label tag.attrs)
      = b.take (.start (tagBody tag.label tag.attrs)) := b.step_mark (.start _ _) trivial
  rw [htake, Build.take, openElement_startTag h tag]
  refine ⟨fun hb => ?_, fun hb => ?_⟩
  · rw [if_pos hb]
    rfl
  · rw [if_neg hb]
    exact ⟨_, _, rfl⟩

/-- The tags of an element add it with the content that was read between them. -/
theorem outcome_node {b b' : Build} {around : List StartTag} {tag : StartTag} {items : List Item}
    (h : b.scope.Follows around)
    (hitems : ∀ f fs root, f.scope.Follows (tag :: around) →
      Outcome (AllBound (tag :: around) items) ⟨f.fill (tag :: around) items :: fs, root⟩
        (Build.run ⟨f :: fs, root⟩ (piecesOf items)))
    (hadd : b.add (tag.element around (elementsOf (tag :: around) items)
      (textBeside (elementsOf (tag :: around) items) items)) = .ok b') :
    Outcome (tag.Bound around ∧ AllBound (tag :: around) items) b'
      (b.run (Item.node tag items).pieces) := by
  have hstart := outcome_start h tag
  have hcontent := hitems (tag.frame around b.scope) b.frames b.root (h.inside tag)
  have hclose : Build.run ⟨(tag.frame around b.scope).fill (tag :: around) items :: b.frames, b.root⟩
      [.close tag.label] = .ok b' := by
    rw [Build.run_singleton, Build.step_mark _ (.close _) trivial]
    show (if closeName tag.label = tag.label then
        Build.add b ((tag.frame around b.scope).fill (tag :: around) items).element.settled
      else _) = _
    rw [if_pos (closeName_of_opensTag tag.opensTag_label), settled_fill, hadd]
  show Outcome _ b' (b.run (.start tag.label tag.attrs :: (piecesOf items ++ [.close tag.label])))
  rw [Build.run_cons]
  refine hstart.bind ?_
  rw [Build.run_append, ← and_true (AllBound _ _)]
  refine hcontent.bind ?_
  rw [hclose]
  exact Outcome.ok b'

mutual

/-- **What an item does** to the element it stands in. -/
theorem outcome_item : ∀ (i : Item) (around : List StartTag) (f : Frame) (fs : List Frame)
    (root : Option Element), f.scope.Follows around →
    Outcome (i.Bound around) ⟨f.fill around [i] :: fs, root⟩ (Build.run ⟨f :: fs, root⟩ i.pieces)
  | .text t, around, f, fs, root, _ => by
      have hrun : Build.run ⟨f :: fs, root⟩ [.text t] = .ok ⟨f.fill around [.text t] :: fs, root⟩ := by
        rw [Build.run_singleton, Build.step_text]
        by_cases ht : t = []
        · subst ht
          show Except.ok (⟨f :: fs, root⟩ : Build) = _
          obtain ⟨⟨_, _, _, _, _, _⟩, _, _⟩ := f
          simp [Frame.fill, elementsOf, Item.elements, Item.characters?, addTexts]
        · rw [if_neg ht]
          show Except.ok (⟨{ f with element := f.element.appendText t } :: fs, root⟩ : Build) = _
          simp [Frame.fill, elementsOf, Item.elements, Item.characters?, addTexts, ht,
            Element.appendText]
      show Outcome True _ (Build.run ⟨f :: fs, root⟩ [.text t])
      rw [hrun]
      exact Outcome.ok _
  | .cdata t ht, around, f, fs, root, _ => by
      have hrun : Build.run ⟨f :: fs, root⟩ [.cdata t]
          = .ok ⟨f.fill around [.cdata t ht] :: fs, root⟩ := by
        rw [Build.run_singleton, Build.step_mark _ (.cdata _) trivial]
        show Except.ok (⟨{ f with element := f.element.appendText t } :: fs, root⟩ : Build) = _
        simp [Frame.fill, elementsOf, Item.elements, Item.characters?, addTexts,
          Element.appendText]
      show Outcome True _ (Build.run ⟨f :: fs, root⟩ [.cdata t])
      rw [hrun]
      exact Outcome.ok _
  | .note n, around, f, fs, root, _ => by
      have hrun : Build.run ⟨f :: fs, root⟩ [n.piece] = .ok ⟨f.fill around [.note n] :: fs, root⟩ := by
        have hfill : f.fill around [.note n] = f := by
          obtain ⟨⟨_, _, _, _, _, _⟩, _, _⟩ := f
          simp [Frame.fill, elementsOf, Item.elements, List.filterMap_cons, Item.characters?, addTexts]
        rw [Build.run_singleton, hfill]
        cases n with
        | comment t h => exact Build.step_mark _ (.comment t) trivial
        | instruction t h => exact Build.step_mark _ (.instruction t) trivial
      show Outcome True _ (Build.run ⟨f :: fs, root⟩ [n.piece])
      rw [hrun]
      exact Outcome.ok _
  | .leaf tag, around, f, fs, root, h => by
      have hfill : (⟨f.fill around [.leaf tag] :: fs, root⟩ : Build)
          = ⟨{ f with element := f.element.addChild (tag.element around [] none) } :: fs, root⟩ := by
        simp [Frame.fill, elementsOf, Item.elements, List.filterMap_cons, Item.characters?, addTexts,
          Element.addChild]
      rw [hfill]
      exact outcome_leaf (b := ⟨f :: fs, root⟩) h rfl
  | .node tag items, around, f, fs, root, h => by
      have hfill : (⟨f.fill around [.node tag items] :: fs, root⟩ : Build)
          = ⟨{ f with
                element := f.element.addChild
                  (tag.element around (elementsOf (tag :: around) items)
                    (textBeside (elementsOf (tag :: around) items) items)) } :: fs, root⟩ := by
        simp [Frame.fill, elementsOf, Item.elements, List.filterMap_cons, Item.characters?, addTexts,
          Element.addChild]
      rw [hfill]
      exact outcome_node (b := ⟨f :: fs, root⟩) h
        (fun g gs r hg => outcome_items items (tag :: around) g gs r hg) rfl

/-- **What items do** to the element they stand in. -/
theorem outcome_items : ∀ (items : List Item) (around : List StartTag) (f : Frame)
    (fs : List Frame) (root : Option Element), f.scope.Follows around →
    Outcome (AllBound around items) ⟨f.fill around items :: fs, root⟩
      (Build.run ⟨f :: fs, root⟩ (piecesOf items))
  | [], around, f, fs, root, _ => by
      rw [f.fill_nil]
      exact Outcome.ok _
  | i :: is, around, f, fs, root, h => by
      show Outcome (i.Bound around ∧ AllBound around is) _ (Build.run _ (i.pieces ++ piecesOf is))
      rw [Build.run_append, ← Frame.fill_cons]
      exact (outcome_item i around f fs root h).bind
        (outcome_items is around (f.fill around [i]) fs root h)

end

/-! ## §6. Whole documents. -/

theorem piecesOf_append : ∀ is js : List Item, piecesOf (is ++ js) = piecesOf is ++ piecesOf js
  | [], _ => rfl
  | i :: is, js => by
      show i.pieces ++ piecesOf (is ++ js) = i.pieces ++ piecesOf is ++ piecesOf js
      rw [piecesOf_append is js, List.append_assoc]

theorem allBound_append {around : List StartTag} : ∀ {is js : List Item},
    AllBound around (is ++ js) ↔ AllBound around is ∧ AllBound around js
  | [], _ => (and_iff_right trivial).symm
  | i :: is, js => by
      show i.Bound around ∧ AllBound around (is ++ js)
        ↔ (i.Bound around ∧ AllBound around is) ∧ AllBound around js
      rw [allBound_append, and_assoc]

theorem Note.legible_piece (n : Note) : n.piece.Legible := by
  cases n with
  | comment t h => exact h
  | instruction t h => exact h

theorem Margin.legible_piece (m : Margin) : m.piece.Legible := by
  cases m with
  | note n => exact n.legible_piece
  | blank t h => exact trivial

mutual

theorem Item.legible_pieces : ∀ (i : Item), ∀ p ∈ i.pieces, p.Legible
  | .text t, p, hp => by
      obtain rfl := List.mem_singleton.mp hp
      exact trivial
  | .cdata t h, p, hp => by
      obtain rfl := List.mem_singleton.mp hp
      exact h
  | .note n, p, hp => by
      obtain rfl := List.mem_singleton.mp hp
      exact n.legible_piece
  | .leaf tag, p, hp => by
      obtain rfl := List.mem_singleton.mp hp
      exact ⟨tag.opensTag_label, tag.isKey_of_mem⟩
  | .node tag items, p, hp => by
      rcases List.mem_cons.mp hp with rfl | hp
      · exact ⟨tag.opensTag_label, tag.isKey_of_mem⟩
      rcases List.mem_append.mp hp with hp | hp
      · exact legible_piecesOf items p hp
      · obtain rfl := List.mem_singleton.mp hp
        exact tag.opensTag_label

theorem legible_piecesOf : ∀ (items : List Item), ∀ p ∈ piecesOf items, p.Legible
  | [], p, hp => absurd hp (by simp [piecesOf])
  | i :: is, p, hp => by
      rcases List.mem_append.mp hp with hp | hp
      · exact i.legible_pieces p hp
      · exact legible_piecesOf is p hp

end

/-- Nothing beside the root changes what was read. -/
theorem run_margins {b : Build} (hb : b.frames = []) :
    ∀ ms : List Margin, b.run (ms.map Margin.piece) = .ok b := by
  intro ms
  induction ms with
  | nil => rfl
  | cons m ms ih =>
      have hstep : b.step m.piece = .ok b := by
        cases m with
        | note n =>
            cases n with
            | comment t h => exact b.step_mark (.comment t) trivial
            | instruction t h => exact b.step_mark (.instruction t) trivial
        | blank t h =>
            show b.step (.text t) = _
            rw [Build.step_text]
            unfold Build.addText
            rw [hb]
            simp [h]
      rw [List.map_cons, Build.run_cons, hstep]
      exact ih

/-- No document begins with a byte order mark. -/
theorem dropMark_markups (s : Text) : ∀ ms : List Margin,
    dropMark (markups (ms.map Margin.piece) ++ '<' :: s) = markups (ms.map Margin.piece) ++ '<' :: s
  | [] => rfl
  | .note n :: ms => by
      obtain ⟨s', hs'⟩ : ∃ s', n.piece.markup = '<' :: s' := by
        cases n <;> exact ⟨_, rfl⟩
      rw [List.map_cons, markups_cons]
      show dropMark (n.piece.markup ++ _ ++ _) = n.piece.markup ++ _ ++ _
      rw [hs']
      rfl
  | .blank [] h :: ms => dropMark_markups s ms
  | .blank (c :: t) h :: ms => by
      have hc : Text.isBlank c = true := List.all_eq_true.mp h c List.mem_cons_self
      -- the mark is no white space, and white space is written as it is
      have hmark : c ≠ Char.ofNat 0xFEFF := by
        rintro rfl
        exact absurd hc (by decide)
      have hesc : escapeTextChar c = [c] := by
        apply escapeTextChar_eq
        intro hmem
        have hall : "<>&".toList.all (fun x => !Text.isBlank x) = true := by decide
        have hnot := List.all_eq_true.mp hall c hmem
        rw [hc] at hnot
        exact absurd hnot (by decide)
      rw [List.map_cons, markups_cons]
      show dropMark (escapeTextChar c ++ _ ++ _ ++ _) = escapeTextChar c ++ _ ++ _ ++ _
      rw [hesc]
      simp [dropMark, Text.dropLead, Text.after?, List.isPrefixOf?, hmark.symm]

namespace Document

variable (d : Document)

theorem outcome_rootItem :
    Outcome d.Bound ⟨[], some d.tree⟩ (Build.initial.run d.rootItem.pieces) := by
  unfold Document.Bound Document.tree rootItem
  cases d.content with
  | none =>
      show Outcome (_ ∧ True) _ _
      rw [and_true]
      exact outcome_leaf follows_nil rfl
  | some items =>
      exact outcome_node follows_nil (fun f fs root hf => outcome_items items _ f fs root hf) rfl

/-- What the pieces of a document do to nothing read. -/
theorem outcome_pieces : Outcome d.Bound ⟨[], some d.tree⟩ (Build.initial.run d.pieces) := by
  unfold Document.pieces
  rw [Build.run_append, run_margins rfl]
  show Outcome d.Bound _ (Build.initial.run _)
  rw [Build.run_append, ← and_true d.Bound]
  refine d.outcome_rootItem.bind ?_
  rw [run_margins rfl]
  exact Outcome.ok _

theorem legible_pieces : ∀ p ∈ d.pieces, p.Legible := by
  intro p hp
  have hmargin : ∀ ms : List Margin, p ∈ ms.map Margin.piece → p.Legible := by
    intro ms hmem
    obtain ⟨m, -, rfl⟩ := List.mem_map.mp hmem
    exact m.legible_piece
  rcases List.mem_append.mp hp with hp | hp
  · exact hmargin d.before hp
  rcases List.mem_append.mp hp with hp | hp
  · exact d.rootItem.legible_pieces p hp
  · exact hmargin d.after hp

theorem dropMark_markup : dropMark d.markup = d.markup := by
  obtain ⟨s, hs⟩ : ∃ s, markups (d.rootItem.pieces ++ d.after.map Margin.piece) = '<' :: s := by
    unfold rootItem
    cases d.content <;> exact ⟨_, rfl⟩
  have hmarkup : d.markup = markups (d.before.map Margin.piece) ++ '<' :: s := by
    rw [← hs]
    exact List.flatMap_append
  rw [hmarkup, dropMark_markups]

/-- **THE READER BUILDS THE TREE THAT THE MARKUP DENOTES**: the markup of a document is read as its
tree when every prefix has a declaration, on its own tag or on a tag around it; a document with a
prefix that has none is refused for such a prefix. -/
theorem read_markup :
    (d.Bound → read d.markup = .ok d.tree)
      ∧ (¬ d.Bound → ∃ fault pre label, read d.markup = .error fault
          ∧ fault.cause = .unboundPrefix pre label) := by
  have hcause : readCause .initial d.markup = Build.initial.run d.pieces >>= Build.finish :=
    readFrom_pieces d.legible_pieces .initial
  unfold read
  rw [d.dropMark_markup]
  refine ⟨fun hb => ?_, fun hb => ?_⟩
  · rw [d.outcome_pieces.1 hb] at hcause
    rw [readCause_eq_ok.mp hcause]
  · obtain ⟨pre, label, hrun⟩ := d.outcome_pieces.2 hb
    rw [hrun] at hcause
    obtain ⟨place, hread⟩ := readCause_eq_error.mp hcause
    rw [hread]
    exact ⟨_, pre, label, rfl, rfl⟩

end Document

end Crosswalk.Markup
