/-
  Crosswalk.Proofs.Markup.Reread
  ──────────────────────────────────────
  **WRITING WHAT WAS READ, AND READING IT AGAIN.**

  A tree that was read keeps its prefixes, but a prefix that was taken back
  leaves its element without one, and a colon in the rest of a name stays
  where it is.  Written again, such a tag can say something else.  So the tree
  has the same shape after another reading exactly when every tag in it is
  unambiguous (`Element.Unambiguous`); that its names can stand in a tag at
  all (`Element.Spelled`) is asked of them.

    • `reread`: what the tags of a written tree open, element by element,
    • `run_writtenPieces`: reading a written tree comes to that,
    • `opens_iff`: a written tag opens the element again exactly when it is
      unambiguous,
    • `reread_iff`: so does the whole tree,
    • `read_write_of_read`: the text that was read and the text that is
      written,
    • `read_write_of_read_takingBack`: a text that cannot be read again.
-/
import Crosswalk.Proofs.Markup.Accepted
import Crosswalk.Proofs.Markup.Piece

namespace Crosswalk.Markup

/-! ## §1. Shapes, and tags that can be written. -/

mutual

/-- What two readings are compared by: all but the further declarations, and whether a text that is
not there is missing or empty. -/
def shape : Element → Element
  | ⟨name, ns, _, attrs, children, text⟩ =>
    ⟨name, ns, [], attrs, shapeAll children, text.filter (· ≠ [])⟩

/-- The shapes of elements side by side. -/
def shapeAll : List Element → List Element
  | [] => []
  | e :: es => shape e :: shapeAll es

end

theorem shapeAll_eq_map (es : List Element) : shapeAll es = es.map shape := by
  induction es with
  | nil => rfl
  | cons e es ih => rw [shapeAll, ih, List.map_cons]

theorem shape_eq (e : Element) :
    shape e = ⟨e.name, e.ns, [], e.attrs, e.children.map shape, e.text.filter (· ≠ [])⟩ := by
  obtain ⟨name, ns, decls, attrs, children, text⟩ := e
  rw [shape, shapeAll_eq_map]

namespace Element

/-- The names of the element can stand in a tag, and its further declarations have different
prefixes. -/
structure Spelled (e : Element) : Prop where
  label : OpensTag e.qualifiedName
  keys : ∀ a ∈ e.attrs, IsKey a.name
  declared : ∀ ns ∈ neededBindings e.ns e.decls, IsKey ns.declarationName
  prefixes : (e.decls.map Namespace.pre).Nodup

/-- The written tag says what the element is: a name without a prefix does not look like one with a
prefix, and the prefix of the element is not declared anew beside it. -/
structure Unambiguous (e : Element) : Prop where
  colon : e.pre = [] → ':' ∉ e.name
  ownPrefix : ∀ d ∈ e.decls, d.pre ≠ e.pre

/-- What a writer may do with an element that was read. -/
def Writable (e : Element) : Prop :=
  e.Accepted ∧ e.Spelled

theorem Writable.legible {e : Element} (h : e.Writable) (hu : e.Unambiguous) : e.LegibleTag where
  label := h.2.label
  split := splitQualified_qualify h.1.tag.colon hu.colon
  declared := h.2.declared
  keys := h.2.keys
  space := h.1.tag.space
  decls := fun d hd => (h.1.tag.decls d hd).1
  prefixes := h.2.prefixes
  ownPrefix := hu.ownPrefix
  attrs := h.1.tag.attrs
  attrNames := h.1.tag.attrNames

end Element

/-! ## §2. What a written tag opens. -/

/-- The attributes in the written tag of an element, declarations first. -/
def writtenAttributes (scope : Scope) (e : Element) : List Attribute :=
  (declaredIn scope (neededBindings e.ns e.decls)).map Namespace.attribute ++ e.attrs

/-- The bindings inside the written tag of an element. -/
def writtenScope (scope : Scope) (e : Element) : Scope :=
  (declaredIn scope (neededBindings e.ns e.decls)).reverse ++ scope

theorem isKey_writtenAttributes {e : Element} (h : e.Spelled) (scope : Scope) :
    ∀ a ∈ writtenAttributes scope e, IsKey a.name := by
  intro a ha
  rcases List.mem_append.mp ha with ha | ha
  · obtain ⟨ns, hns, rfl⟩ := List.mem_map.mp ha
    exact h.declared ns ((declaredIn_sublist _ scope).subset hns)
  · exact h.keys a ha

theorem binding?_writtenAttributes {e : Element} (h : e.Opened) (scope : Scope) :
    (writtenAttributes scope e).filterMap Attribute.binding?
      = declaredIn scope (neededBindings e.ns e.decls) :=
  filterMap_binding? h.attrs

/-- A written tag that opens something opens what its attributes say. -/
theorem eq_frameOf_of_openElement {tag : Text} {attrs : List Attribute} {scope : Scope} {f : Frame}
    (ht : OpensTag tag) (ha : ∀ a ∈ attrs, IsKey a.name)
    (h : openElement (tagBody tag attrs) scope = .ok f) :
    ∃ ns, resolve? ((attrs.filterMap Attribute.binding?).reverse ++ scope) (splitQualified tag).1
        = some ns
      ∧ f = frameOf tag (splitQualified tag).2 attrs scope ns := by
  obtain ⟨read, ns, hread, hresolve, rfl⟩ := openElement_eq_ok.mp h
  rw [tagName_tagBody ht] at hresolve ⊢
  have hwritten : readAttributes (Text.byteSize (tagBody tag attrs)) []
      (attrs.flatMap Attribute.write) = .ok read := by
    rw [← (cutName_tagBody ht attrs).2]
    exact hread
  obtain rfl := eq_of_readAttributes_write ha hwritten
  exact ⟨ns, hresolve, rfl⟩

/-- The name and the scope of what a written tag opens, and that it is empty. -/
theorem writtenFrame {e : Element} (h : e.Writable) {scope : Scope} {f : Frame}
    (hopen : openElement (tagBody e.qualifiedName (writtenAttributes scope e)) scope = .ok f) :
    f.name = e.qualifiedName ∧ f.scope = writtenScope scope e
      ∧ f.element.children = [] ∧ f.element.text = none := by
  obtain ⟨ns, -, rfl⟩ := eq_frameOf_of_openElement h.2.label
    (isKey_writtenAttributes h.2 scope) hopen
  refine ⟨rfl, ?_, rfl, rfl⟩
  unfold writtenScope frameOf
  rw [binding?_writtenAttributes h.1.tag scope]

theorem length_splitQualified {s : Text} (h : ':' ∈ s) :
    (splitQualified s).2.length < s.length := by
  unfold splitQualified
  rw [List.span_eq_takeWhile_dropWhile]
  cases hd : s.dropWhile (· != ':') with
  | nil =>
      have hall := List.dropWhile_eq_nil_iff.mp hd ':' h
      exact absurd hall (by decide)
  | cons c cs =>
      have hle := (List.dropWhile_sublist (· != ':') (l := s)).length_le
      rw [hd, List.length_cons] at hle
      exact hle

/-- A further declaration of the prefix of an element decides what it stands for. -/
theorem binding?_writtenScope {e : Element} (h : e.Writable) (scope : Scope) {d : Namespace}
    (hd : d ∈ e.decls) : (writtenScope scope e).binding? d.pre = some d := by
  have huri : (writtenScope scope e).uri d.pre = d.uri := by
    have hall := congrArg Prod.snd (declareAll_eq_declaredIn (neededBindings e.ns e.decls) scope)
    have hinner : writtenScope scope e
        = (declareAll scope (neededBindings e.ns e.decls)).2 := hall.symm
    rw [hinner, uri_declareAll]
    unfold neededBindings
    rw [List.foldl_cons]
    exact foldl_bind_of_mem h.2.prefixes hd
  unfold Scope.uri at huri
  cases hb : (writtenScope scope e).binding? d.pre with
  | none =>
      rw [hb] at huri
      exact absurd huri.symm (h.1.tag.decls d hd).1
  | some m =>
      rw [hb] at huri
      have hpre : m.pre = d.pre := by simpa using List.find?_some hb
      have huri' : m.uri = d.uri := huri
      obtain ⟨mp, mu⟩ := m
      obtain ⟨dp, du⟩ := d
      simp only at hpre huri'
      rw [hpre, huri']

/-- **A written tag opens the element again exactly when it is unambiguous.** -/
theorem opens_iff {e : Element} (h : e.Writable) (scope : Scope) :
    (∃ f, openElement (tagBody e.qualifiedName (writtenAttributes scope e)) scope = .ok f
        ∧ f.element.name = e.name ∧ f.element.ns = e.ns ∧ f.element.attrs = e.attrs)
      ↔ e.Unambiguous := by
  constructor
  · rintro ⟨f, hopen, hname, hns, -⟩
    obtain ⟨ns, hresolve, rfl⟩ := eq_frameOf_of_openElement h.2.label
      (isKey_writtenAttributes h.2 scope) hopen
    have hname' : (splitQualified e.qualifiedName).2 = e.name := hname
    obtain rfl : ns = e.ns := hns
    have hcolon : e.pre = [] → ':' ∉ e.name := by
      -- otherwise the tag is read with the part of the name before its first colon as a prefix
      intro hpre hmem
      have hlt := length_splitQualified hmem
      have hqual : e.qualifiedName = e.name := by
        unfold Element.qualifiedName qualify
        rw [hpre]
        rfl
      rw [hqual] at hname'
      rw [hname'] at hlt
      exact absurd hlt (Nat.lt_irrefl _)
    refine ⟨hcolon, ?_⟩
    intro d hd hpre
    -- otherwise the prefix is resolved to that declaration, which is not the namespace it had
    have hsplit : splitQualified e.qualifiedName = (e.pre, e.name) :=
      splitQualified_qualify h.1.tag.colon hcolon
    have hscope : ((writtenAttributes scope e).filterMap Attribute.binding?).reverse ++ scope
        = writtenScope scope e := by
      rw [binding?_writtenAttributes h.1.tag scope]
      rfl
    rw [hscope, hsplit] at hresolve
    have huri : d.uri.isEmpty = false := by simpa using (h.1.tag.decls d hd).1
    unfold resolve? at hresolve
    simp only [← hpre, binding?_writtenScope h scope hd, huri] at hresolve
    exact (h.1.tag.decls d hd).2 (Option.some.inj hresolve)
  · intro hu
    have hlegible := h.legible hu
    have hwritten : writtenAttributes scope e
        = (missing scope (neededBindings e.ns e.decls)).map Namespace.attribute ++ e.attrs := by
      unfold writtenAttributes
      rw [declaredIn_eq_missing _ scope hlegible.nodup_needed]
    rw [hwritten]
    exact ⟨openedFrame scope e, openElement_write hlegible scope, rfl, rfl, rfl⟩

/-! ## §3. What a written tree is read as. -/

mutual

/-- What the tags of a written element open in a scope, with the texts that were written. -/
def reread (scope : Scope) : Element → Except Cause Element
  | ⟨name, ns, decls, attrs, children, text⟩ =>
    let e : Element := ⟨name, ns, decls, attrs, [], text⟩
    match openElement (tagBody e.qualifiedName (writtenAttributes scope e)) scope with
    | .error c => .error c
    | .ok f =>
      match rereadAll (writtenScope scope e) children with
      | .error c => .error c
      | .ok cs => .ok { f.element with children := cs, text := text.filter (· ≠ []) }.settled

/-- The same for elements side by side. -/
def rereadAll (scope : Scope) : List Element → Except Cause (List Element)
  | [] => .ok []
  | e :: es =>
    match reread scope e with
    | .error c => .error c
    | .ok e' => (rereadAll scope es).map (e' :: ·)

end

theorem reread_eq (scope : Scope) (e : Element) :
    reread scope e
      = match openElement (tagBody e.qualifiedName (writtenAttributes scope e)) scope with
        | .error c => .error c
        | .ok f =>
          match rereadAll (writtenScope scope e) e.children with
          | .error c => .error c
          | .ok cs => .ok { f.element with children := cs, text := e.text.filter (· ≠ []) }.settled := by
  obtain ⟨name, ns, decls, attrs, children, text⟩ := e
  rw [reread]
  rfl

mutual

/-- The pieces of a written element. -/
def writtenPieces (scope : Scope) : Element → List Piece
  | ⟨name, ns, decls, attrs, children, text⟩ =>
    let e : Element := ⟨name, ns, decls, attrs, [], text⟩
    if text.isNone && children.isEmpty then [.empty e.qualifiedName (writtenAttributes scope e)]
    else
      .start e.qualifiedName (writtenAttributes scope e) :: .text (text.getD [])
        :: (writtenPiecesAll (writtenScope scope e) children ++ [.close e.qualifiedName])

/-- The pieces of written elements side by side. -/
def writtenPiecesAll (scope : Scope) : List Element → List Piece
  | [] => []
  | e :: es => writtenPieces scope e ++ writtenPiecesAll scope es

end

theorem writtenPieces_eq (scope : Scope) (e : Element) :
    writtenPieces scope e
      = if e.text.isNone && e.children.isEmpty then
          [.empty e.qualifiedName (writtenAttributes scope e)]
        else
          .start e.qualifiedName (writtenAttributes scope e) :: .text (e.text.getD [])
            :: (writtenPiecesAll (writtenScope scope e) e.children ++ [.close e.qualifiedName]) := by
  obtain ⟨name, ns, decls, attrs, children, text⟩ := e
  rw [writtenPieces]
  rfl

mutual

/-- The markup of the pieces is what is written. -/
theorem markups_writtenPieces : ∀ (scope : Scope) (e : Element),
    markups (writtenPieces scope e) = writeElement scope e
  | scope, ⟨name, ns, decls, attrs, children, text⟩ => by
      have hkids := markups_writtenPiecesAll
        (writtenScope scope ⟨name, ns, decls, attrs, [], text⟩) children
      rw [writtenPieces, writeElement, declareAll_eq_declaredIn]
      by_cases hc : (text.isNone && children.isEmpty) = true
      · simp only [hc, if_true]
        simp [markups, Piece.markup, enclose, tagBody, writtenAttributes, Element.qualifiedName,
          Element.pre]
        rfl
      · simp only [if_neg hc]
        rw [markups_cons, markups_cons, markups_append, hkids]
        simp [markups, Piece.markup, enclose, tagBody, writtenAttributes, writtenScope,
          Element.qualifiedName, Element.pre]
        rfl

theorem markups_writtenPiecesAll : ∀ (scope : Scope) (es : List Element),
    markups (writtenPiecesAll scope es) = writeElements scope es
  | scope, [] => rfl
  | scope, e :: es => by
      rw [writtenPiecesAll, writeElements, markups_append, markups_writtenPieces scope e,
        markups_writtenPiecesAll scope es]

end

/-- The pieces of a tree with names that can stand in tags are legible. -/
theorem legible_writtenPieces {e : Element} (h : Everywhere Element.Spelled e) :
    ∀ scope, ∀ p ∈ writtenPieces scope e, p.Legible := by
  induction h with
  | @intro e here _ ih =>
      intro scope p hp
      have hall : ∀ (es : List Element), (∀ c ∈ es, c ∈ e.children) → ∀ q ∈
          writtenPiecesAll (writtenScope scope e) es, q.Legible := by
        intro es
        induction es with
        | nil => intro _ q hq; exact absurd hq (by simp [writtenPiecesAll])
        | cons c es ihes =>
            intro hsub q hq
            rcases List.mem_append.mp hq with hq | hq
            · exact ih c (hsub c List.mem_cons_self) _ q hq
            · exact ihes (fun x hx => hsub x (List.mem_cons_of_mem c hx)) q hq
      rw [writtenPieces_eq] at hp
      split at hp
      next =>
        obtain rfl := List.mem_singleton.mp hp
        exact ⟨here.label, isKey_writtenAttributes here scope⟩
      next =>
        rcases List.mem_cons.mp hp with rfl | hp
        · exact ⟨here.label, isKey_writtenAttributes here scope⟩
        rcases List.mem_cons.mp hp with rfl | hp
        · exact trivial
        rcases List.mem_append.mp hp with hp | hp
        · exact hall e.children (fun c hc => hc) p hp
        · obtain rfl := List.mem_singleton.mp hp
          exact here.label

/-- The pieces of a written element come to what its tags open. -/
def ComesToReread (e : Element) : Prop :=
  ∀ b : Build, b.run (writtenPieces b.scope e) = reread b.scope e >>= b.add

/-- Written children come one after the other into the open element. -/
theorem run_writtenPiecesAll (fs : List Frame) (root : Option Element) :
    ∀ (es : List Element) (f : Frame), (∀ e ∈ es, ComesToReread e) →
      Build.run ⟨f :: fs, root⟩ (writtenPiecesAll f.scope es)
        = rereadAll f.scope es >>= fun cs =>
            .ok ⟨{ f with element := { f.element with children := f.element.children ++ cs } } :: fs,
              root⟩ := by
  intro es
  induction es with
  | nil =>
      intro f _
      obtain ⟨⟨_, _, _, _, _, _⟩, _, _⟩ := f
      show Except.ok _ = Except.ok _
      simp
  | cons e es ih =>
      intro f h
      have he : Build.run ⟨f :: fs, root⟩ (writtenPieces f.scope e)
          = reread f.scope e >>= Build.add ⟨f :: fs, root⟩ :=
        h e List.mem_cons_self ⟨f :: fs, root⟩
      rw [writtenPiecesAll, Build.run_append, he, rereadAll]
      cases hr : reread f.scope e with
      | error c => rfl
      | ok e' =>
          have hes := ih { f with element := f.element.addChild e' }
            (fun x hx => h x (List.mem_cons_of_mem e hx))
          show Build.run ⟨{ f with element := f.element.addChild e' } :: fs, root⟩
            (writtenPiecesAll f.scope es) = _
          rw [show f.scope = ({ f with element := f.element.addChild e' } : Frame).scope from rfl, hes]
          cases rereadAll f.scope es with
          | error c => rfl
          | ok cs =>
              show Except.ok _ = Except.ok _
              simp [Element.addChild]

/-- An element without content that is closed at once stays as it is. -/
theorem settled_bare {e : Element} (hchildren : e.children = []) (htext : e.text = none) :
    ({ e with children := [], text := none } : Element).settled = e := by
  obtain ⟨_, _, _, _, _, _⟩ := e
  simp only at hchildren htext
  rw [hchildren, htext]
  rfl

/-- The written text of an element that was just opened is its text, unless it is empty. -/
theorem step_writtenText {f : Frame} (htext : f.element.text = none) (fs : List Frame)
    (root : Option Element) (t : Option Text) :
    Build.step ⟨f :: fs, root⟩ (.text (t.getD []))
      = .ok ⟨{ f with element := { f.element with text := t.filter (· ≠ []) } } :: fs, root⟩ := by
  rw [Build.step_text]
  obtain ⟨⟨_, _, _, _, _, _⟩, _, _⟩ := f
  simp only at htext
  subst htext
  cases t with
  | none => simp
  | some t =>
      by_cases ht : t = []
      · simp [ht, Option.filter]
      · simp [ht, Option.filter, Build.addText, Element.appendText]

/-- **Reading a written tree comes to what its tags open**, wherever it stands. -/
theorem run_writtenPieces {e : Element} (h : Everywhere Element.Writable e) : ComesToReread e := by
  -- the induction is on the tree: the children stand in the scope of the tag of their parent
  induction h with
  | @intro e here _ ih =>
      intro b
      rw [writtenPieces_eq, reread_eq]
      cases hopen : openElement (tagBody e.qualifiedName (writtenAttributes b.scope e)) b.scope with
      | error c =>
          split
          next =>
            rw [b.run_singleton, b.step_mark (.empty _ _) trivial]
            simp only [Piece.token, Build.take, hopen]
            rfl
          next =>
            rw [Build.run_cons, b.step_mark (.start _ _) trivial]
            simp only [Piece.token, Build.take, hopen]
            rfl
      | ok f =>
          obtain ⟨hname, hscope, hchildren, htext⟩ := writtenFrame here hopen
          split
          next hc =>
            simp only [Bool.and_eq_true, Option.isNone_iff_eq_none, List.isEmpty_iff] at hc
            rw [b.run_singleton, b.step_mark (.empty _ _) trivial]
            simp only [Piece.token, Build.take, hopen, hc.1, hc.2]
            -- nothing was written between the tags, and nothing is in the element
            rw [show Option.filter (· ≠ []) (none : Option Text) = none from rfl]
            show _ = b.add ({ f.element with children := [], text := none } : Element).settled
            rw [settled_bare hchildren htext]
          next =>
            let g : Frame := { f with element := { f.element with text := e.text.filter (· ≠ []) } }
            have hstart : b.step (.start e.qualifiedName (writtenAttributes b.scope e))
                = .ok ⟨f :: b.frames, b.root⟩ := by
              rw [b.step_mark (.start _ _) trivial]
              simp only [Piece.token, Build.take, hopen]
            have htextStep : Build.step ⟨f :: b.frames, b.root⟩ (.text (e.text.getD []))
                = .ok ⟨g :: b.frames, b.root⟩ := step_writtenText htext b.frames b.root e.text
            have hgscope : writtenScope b.scope e = g.scope := hscope.symm
            have hkids := run_writtenPiecesAll b.frames b.root e.children g ih
            rw [Build.run_cons, hstart]
            show Build.run ⟨f :: b.frames, b.root⟩ _ = _
            rw [Build.run_cons, htextStep]
            show Build.run ⟨g :: b.frames, b.root⟩ _ = _
            rw [Build.run_append, hgscope, hkids]
            cases rereadAll g.scope e.children with
            | error c => rfl
            | ok cs =>
                show Build.run ⟨_ :: b.frames, b.root⟩ [.close e.qualifiedName] = b.add _
                rw [Build.run_singleton, Build.step_mark _ (.close _) trivial]
                show (if closeName e.qualifiedName = f.name then Build.add b _ else _) = _
                rw [if_pos (by rw [closeName_of_opensTag here.2.label, hname])]
                simp [g, hchildren]

/-! ## §4. THE SECOND READING. -/

/-- Elements are read again one by one. -/
theorem rereadAll_iff (scope : Scope) : ∀ es : List Element,
    (∃ cs, rereadAll scope es = .ok cs ∧ cs.map shape = es.map shape)
      ↔ ∀ e ∈ es, ∃ e', reread scope e = .ok e' ∧ shape e' = shape e := by
  intro es
  induction es with
  | nil => simp [rereadAll]
  | cons e es ih =>
      rw [List.forall_mem_cons, ← ih]
      constructor
      · rintro ⟨cs, hcs, hshape⟩
        rw [rereadAll] at hcs
        cases he : reread scope e with
        | error c =>
            rw [he] at hcs
            exact absurd hcs (by simp)
        | ok e' =>
            rw [he] at hcs
            cases hes : rereadAll scope es with
            | error c =>
                rw [hes] at hcs
                exact absurd hcs (by simp [Except.map])
            | ok cs' =>
                rw [hes] at hcs
                obtain rfl := Except.ok.inj hcs
                rw [List.map_cons, List.map_cons] at hshape
                obtain ⟨h₁, h₂⟩ := List.cons.inj hshape
                exact ⟨⟨e', rfl, h₁⟩, cs', rfl, h₂⟩
      · rintro ⟨⟨e', he, h₁⟩, cs, hes, h₂⟩
        refine ⟨e' :: cs, ?_, ?_⟩
        · rw [rereadAll, he, hes]
          rfl
        · rw [List.map_cons, List.map_cons, h₁, h₂]

/-- The text of an element that was read counts whenever it is not empty. -/
theorem text_settled {e : Element} (h : e.Accepted) {cs : List Element}
    (hcs : cs.isEmpty = e.children.isEmpty) (f : Element) :
    ({ f with children := cs, text := e.text.filter (· ≠ []) } : Element).settled.text
      = e.text.filter (· ≠ []) := by
  unfold Element.settled
  simp only [hcs]
  split
  next hdrop =>
    simp only [Bool.and_eq_true, Bool.not_eq_eq_eq_not, Bool.not_true] at hdrop
    have hne : e.children ≠ [] := by simpa using hdrop.1
    cases ht : e.text with
    | none => rfl
    | some t =>
        have hblank := h.text hne t ht
        rw [ht] at hdrop
        by_cases htnil : t = []
        · simp [htnil, Option.filter]
        · simp [Option.filter, htnil, hblank] at hdrop
  next => rfl

/-- **A written tree is read with the shape it had exactly when every tag in it is unambiguous.** -/
theorem reread_iff {e : Element} (h : Everywhere Element.Writable e) : ∀ scope,
    (∃ e', reread scope e = .ok e' ∧ shape e' = shape e) ↔ Everywhere Element.Unambiguous e := by
  induction h with
  | @intro e here _ ih =>
      intro scope
      have hkids := rereadAll_iff (writtenScope scope e) e.children
      constructor
      · rintro ⟨e', hread, hshape⟩
        rw [reread_eq] at hread
        cases hopen : openElement (tagBody e.qualifiedName (writtenAttributes scope e)) scope with
        | error c => simp [hopen] at hread
        | ok f =>
            cases hcs : rereadAll (writtenScope scope e) e.children with
            | error c => simp [hopen, hcs] at hread
            | ok cs =>
                simp only [hopen, hcs] at hread
                obtain rfl := Except.ok.inj hread
                rw [settled_eq, shape_eq, shape_eq] at hshape
                obtain ⟨hname, hns, -, hattrs, hchildren, -⟩ := Element.mk.inj hshape
                refine .intro ((opens_iff here scope).mp ⟨f, hopen, hname, hns, hattrs⟩) ?_
                intro c hc
                exact (ih c hc _).mp (hkids.mp ⟨cs, hcs, hchildren⟩ c hc)
      · intro hu
        obtain ⟨f, hopen, hname, hns, hattrs⟩ := (opens_iff here scope).mpr hu.here
        obtain ⟨cs, hcs, hchildren⟩ := hkids.mpr fun c hc => (ih c hc _).mpr (hu.children c hc)
        have hempty : cs.isEmpty = e.children.isEmpty := by
          have hlen := congrArg List.length hchildren
          rw [List.length_map, List.length_map] at hlen
          rw [Bool.eq_iff_iff, List.isEmpty_iff_length_eq_zero, List.isEmpty_iff_length_eq_zero, hlen]
        refine ⟨{ f.element with children := cs, text := e.text.filter (· ≠ []) }.settled, ?_, ?_⟩
        · rw [reread_eq]
          simp only [hopen, hcs]
        · rw [settled_eq, shape_eq, shape_eq, text_settled here.1 hempty]
          simp only [hname, hns, hattrs, hchildren]
          cases e.text with
          | none => rfl
          | some t => by_cases ht : t = [] <;> simp [Option.filter, ht]

/-- Reading a written document comes to what the tags of its tree open. -/
theorem read_write_iff_reread {e e' : Element} (h : Everywhere Element.Writable e) :
    read (write e) = .ok e' ↔ reread [] e = .ok e' := by
  have hspelled : Everywhere Element.Spelled e := Everywhere.imp (fun _ hw => hw.2) h
  have hcause : readCause .initial (writeElement [] e) = reread [] e := by
    rw [← markups_writtenPieces, readFrom_pieces (legible_writtenPieces hspelled []),
      show Build.initial.run (writtenPieces [] e) = _ from run_writtenPieces h .initial]
    show reread [] e >>= Build.initial.add >>= Build.finish = _
    cases reread [] e <;> rfl
  unfold write
  rw [read_declarationLine (writeElement_eq_cons [] e), ← readCause_eq_ok, hcause]

/-- **A TEXT THAT WAS READ CAN BE WRITTEN AND READ AGAIN WITH THE SAME SHAPE EXACTLY WHEN EVERY TAG
IS UNAMBIGUOUS**, for every text whose tree has names that can stand in tags. -/
theorem read_write_of_read {content : Text} {e : Element} (h : read content = .ok e)
    (hs : Everywhere Element.Spelled e) :
    (∃ e', read (write e) = .ok e' ∧ shape e' = shape e) ↔ Everywhere Element.Unambiguous e := by
  have hw : Everywhere Element.Writable e := (accepted_of_read h).and hs
  rw [← reread_iff hw []]
  constructor
  · rintro ⟨e', hread, hshape⟩
    exact ⟨e', (read_write_iff_reread hw).mp hread, hshape⟩
  · rintro ⟨e', hread, hshape⟩
    exact ⟨e', (read_write_iff_reread hw).mpr hread, hshape⟩

/-! ## §5. A prefix that is taken back. -/

/-- The inner tag takes its own prefix back and declares a default namespace. -/
def takingBack : Text :=
  "<a xmlns=\"v\"><p:b xmlns:p=\"\" xmlns=\"u\"/></a>".toList

/-- The inner element is in no namespace and keeps the declaration of the default one. -/
def takenBack : Element :=
  ⟨"a".toList, some ⟨[], "v".toList⟩, [], [],
    [⟨"b".toList, none, [⟨[], "u".toList⟩], [], [], none⟩], none⟩

theorem spelled_takenBack : Everywhere Element.Spelled takenBack := by
  have hx : IsKey "xmlns".toList := (isTagName_of_isName (by decide)).isKey
  have hlabel : ∀ e : Element, isName e.qualifiedName = true → OpensTag e.qualifiedName :=
    fun e he => (isTagName_of_isName he).opensTag
  have hb : Everywhere Element.Spelled takenBack.children[0] := by
    refine .intro ⟨hlabel _ (by decide), nofun, ?_, by decide⟩ nofun
    intro ns hns
    rcases List.mem_pair.mp hns with rfl | rfl <;> exact hx
  refine .intro ⟨hlabel _ (by decide), nofun, ?_, by decide⟩ ?_
  · intro ns hns
    obtain rfl := List.mem_singleton.mp hns
    exact hx
  · intro c hc
    obtain rfl := List.mem_singleton.mp hc
    exact hb

/-- Written again, the inner tag declares the default namespace twice. -/
theorem read_write_of_read_takingBack :
    read takingBack = .ok takenBack ∧ Everywhere Element.Spelled takenBack
      ∧ ¬ ∃ e', read (write takenBack) = .ok e' ∧ shape e' = shape takenBack := by
  have hread : read takingBack = .ok takenBack := by decide +kernel
  refine ⟨hread, spelled_takenBack, ?_⟩
  rw [read_write_of_read hread spelled_takenBack]
  intro h
  have hb := (h.children _ List.mem_cons_self).here
  exact hb.ownPrefix ⟨[], "u".toList⟩ List.mem_cons_self rfl

end Crosswalk.Markup
