/-
  Crosswalk.Proofs.Markup.Inside
  ──────────────────────────────────────
  **A DOCUMENT INSIDE AN OPEN ELEMENT.**

  A document can be put where a child of another element may stand.  The
  bindings around it then reach its tags, so its elements can come to stand in
  other namespaces, but the names, the texts and the order are what they are
  when it is read alone.

    • `openElement_outer`: a tag that is opened is opened under more bindings,
    • `Hosted`: the two readings side by side; `Hosted.take` keeps them in step,
    • `reaches_of_read`: the document becomes a child with the same outline,
    • `SameOpen.take`: the text around it is taken whatever the open elements
      hold,
    • `take_above`: what is open at a depth is only added to, up to its end
      tag.
-/
import Crosswalk.Proofs.Markup.Reach
import Crosswalk.Proofs.Markup.Uniform

namespace Crosswalk.Markup

/-! ## §1. Elements that differ in their namespaces. -/

/-- The elements have the same name and the same text, and children with the same outlines. -/
structure Element.Alike (e e' : Element) : Prop where
  name : e'.name = e.name
  children : outlineAll e'.children = outlineAll e.children
  text : e'.text = e.text

namespace Element.Alike

variable {e e' c c' : Element}

theorem isEmpty_children (h : e.Alike e') : e'.children.isEmpty = e.children.isEmpty := by
  have hlength := congrArg List.length h.children
  rw [outlineAll_eq_map, outlineAll_eq_map, List.length_map, List.length_map] at hlength
  rw [Bool.eq_iff_iff, List.isEmpty_iff_length_eq_zero, List.isEmpty_iff_length_eq_zero, hlength]

theorem outline_eq (h : e.Alike e') : outline e' = outline e := by
  rw [Markup.outline_eq, Markup.outline_eq, h.name, h.children]
  unfold countedText
  rw [h.text, h.isEmpty_children]

theorem settled (h : e.Alike e') : e.settled.Alike e'.settled := by
  unfold Element.settled
  rw [h.isEmpty_children, h.text]
  split
  next => exact ⟨h.name, h.children, rfl⟩
  next => exact h

theorem addChild (h : e.Alike e') (hc : outline c' = outline c) :
    (e.addChild c).Alike (e'.addChild c') := by
  refine ⟨h.name, ?_, h.text⟩
  show outlineAll (e'.children ++ [c']) = outlineAll (e.children ++ [c])
  rw [outlineAll_append, outlineAll_append, h.children, outlineAll, outlineAll, hc]
  rfl

theorem appendText (h : e.Alike e') (s : Text) : (e.appendText s).Alike (e'.appendText s) := by
  refine ⟨h.name, h.children, ?_⟩
  show some (e'.text.getD [] ++ s) = some (e.text.getD [] ++ s)
  rw [h.text]

end Element.Alike

/-- The frame of the same tag, with more bindings around it. -/
structure Frame.Alike (outer : Scope) (f f' : Frame) : Prop where
  element : f.element.Alike f'.element
  name : f'.name = f.name
  scope : f'.scope = f.scope ++ outer

/-- A prefix that can be resolved can be resolved under more bindings. -/
theorem resolve?_append {inner : Scope} {pre : Text} {ns : Option Namespace}
    (h : resolve? inner pre = some ns) (outer : Scope) :
    ∃ ns', resolve? (inner ++ outer) pre = some ns' := by
  have hfind : Scope.binding? (inner ++ outer) pre
      = (Scope.binding? inner pre).or (Scope.binding? outer pre) := List.find?_append
  unfold resolve? at h ⊢
  rw [hfind]
  cases hb : Scope.binding? inner pre with
  | some m => exact ⟨_, rfl⟩
  | none =>
      rw [hb] at h
      -- the default namespace around the tag may take it in
      cases Scope.binding? outer pre with
      | some m => exact ⟨_, rfl⟩
      | none => exact ⟨ns, h⟩

/-- **A tag that is opened is opened under more bindings as well**: a prefix that is bound stays
with its binding, and no prefix is no fault. -/
theorem openElement_outer {body : Text} {scope : Scope} {f : Frame}
    (h : openElement body scope = .ok f) (outer : Scope) :
    ∃ f', openElement body (scope ++ outer) = .ok f' ∧ f.Alike outer f' := by
  obtain ⟨attrs, ns, hattrs, hresolve, rfl⟩ := openElement_eq_ok.mp h
  have hmore : ∃ ns', resolve? ((attrs.filterMap Attribute.binding?).reverse ++ (scope ++ outer))
      (splitQualified (tagName body)).1 = some ns' := by
    rw [← List.append_assoc]
    exact resolve?_append hresolve outer
  obtain ⟨ns', hns'⟩ := hmore
  refine ⟨_, openElement_eq_ok.mpr ⟨attrs, ns', hattrs, hns', rfl⟩, ⟨rfl, rfl, rfl⟩, rfl, ?_⟩
  exact (List.append_assoc _ scope outer).symm

/-! ## §2. The document alone and in its host. -/

/-- The frame with more children in its element, and with another text. -/
def Frame.holding (f : Frame) (children : List Element) (text : Option Text) : Frame :=
  { f with element := { f.element with children := f.element.children ++ children, text := text } }

/-- The elements of a document read so far, and those of the document in its host: its open
elements are above the host, and its root is a child of the host. -/
inductive Hosted (host : Frame) (below : List Frame) (root : Option Element) :
    Build → Build → Prop
  | intro {frames frames' : List Frame} {complete : Option Element} {children : List Element}
      (text : Option Text) (above : List.Forall₂ (Frame.Alike host.scope) frames frames')
      (roots : outlineAll children = outlineAll complete.toList) :
      Hosted host below root ⟨frames, complete⟩
        ⟨frames' ++ host.holding children text :: below, root⟩

namespace Hosted

variable {host : Frame} {below : List Frame} {root : Option Element} {b b' c : Build}

theorem scope_eq (h : Hosted host below root b b') : b'.scope = b.scope ++ host.scope := by
  obtain ⟨text, above, roots⟩ := h
  cases above with
  | nil => rfl
  | cons hf _ => exact hf.scope

/-- A complete element joins its parent, or it is the root and joins the host. -/
theorem add {e e' : Element} (h : Hosted host below root b b') (he : outline e' = outline e)
    (hadd : b.add e = .ok c) : ∃ c', b'.add e' = .ok c' ∧ Hosted host below root c c' := by
  obtain @⟨frames, frames', complete, children, text, above, roots⟩ := h
  cases above with
  | nil =>
      cases complete with
      | some r => exact absurd hadd (by simp [Build.add])
      | none =>
          -- alone it becomes the root; there was none, so it is the only child that it adds
          obtain rfl := Except.ok.inj hadd
          have hroots : outlineAll (children ++ [e']) = outlineAll (some e).toList := by
            rw [outlineAll_append, roots, outlineAll, he]
            rfl
          have hhost := @Hosted.intro host below root [] [] (some e) _ text .nil hroots
          refine ⟨_, rfl, ?_⟩
          simpa [Frame.holding, Element.addChild] using hhost
  | @cons f f' fs fs' hf above =>
      obtain rfl := Except.ok.inj hadd
      have hmore : List.Forall₂ (Frame.Alike host.scope)
          ({ f with element := f.element.addChild e } :: fs)
          ({ f' with element := f'.element.addChild e' } :: fs') :=
        .cons ⟨hf.element.addChild he, hf.name, hf.scope⟩ above
      exact ⟨_, rfl, .intro text hmore roots⟩

/-- Text joins the innermost open element; beside the root it joins the host. -/
theorem addText {s : Text} (h : Hosted host below root b b') (hadd : b.addText s = .ok c) :
    ∃ c', b'.addText s = .ok c' ∧ Hosted host below root c c' := by
  obtain ⟨text, above, roots⟩ := h
  cases above with
  | nil =>
      unfold Build.addText at hadd
      simp only at hadd
      split at hadd
      next =>
        obtain rfl := Except.ok.inj hadd
        exact ⟨_, rfl, .intro (some (text.getD [] ++ s)) .nil roots⟩
      next => exact absurd hadd (by simp)
  | @cons f f' fs fs' hf above =>
      obtain rfl := Except.ok.inj hadd
      have hmore : List.Forall₂ (Frame.Alike host.scope)
          ({ f with element := f.element.appendText s } :: fs)
          ({ f' with element := f'.element.appendText s } :: fs') :=
        .cons ⟨hf.element.appendText s, hf.name, hf.scope⟩ above
      exact ⟨_, rfl, .intro text hmore roots⟩

/-- **A piece keeps the two readings in step.** -/
theorem take {t : Token} (h : Hosted host below root b b') (ht : b.take t = .ok c) :
    ∃ c', b'.take t = .ok c' ∧ Hosted host below root c c' := by
  have hopen : ∀ {body : Text} {f : Frame}, openElement body b.scope = .ok f →
      ∃ f', openElement body b'.scope = .ok f' ∧ f.Alike host.scope f' := by
    intro body f opened
    rw [h.scope_eq]
    exact openElement_outer opened host.scope
  cases takes_iff.mp ht with
  | aside => exact ⟨b', rfl, h⟩
  | text characters added =>
      obtain ⟨c', hadd, hc⟩ := h.addText added
      exact ⟨c', takes_iff.mpr (.text characters hadd), hc⟩
  | «section» added => exact h.addText added
  | start opened =>
      obtain ⟨f', opened', hf⟩ := hopen opened
      refine ⟨_, takes_iff.mpr (.start opened'), ?_⟩
      obtain ⟨text, above, roots⟩ := h
      exact .intro text (.cons hf above) roots
  | empty opened added =>
      obtain ⟨f', opened', hf⟩ := hopen opened
      obtain ⟨c', hadd, hc⟩ := h.add hf.element.outline_eq added
      exact ⟨c', takes_iff.mpr (.empty opened' hadd), hc⟩
  | close innermost name added =>
      obtain ⟨text, above, roots⟩ := h
      obtain rfl := innermost
      cases above with
      | cons hf above =>
          obtain ⟨c', hadd, hc⟩ :=
            add (.intro text above roots) hf.element.settled.outline_eq added
          exact ⟨c', takes_iff.mpr (.close rfl (name.trans hf.name.symm) hadd), hc⟩

end Hosted

theorem Frame.holding_nil (f : Frame) : f.holding [] f.element.text = f := by
  obtain ⟨⟨name, ns, decls, attrs, children, text⟩, label, scope⟩ := f
  unfold Frame.holding
  rw [List.append_nil]

/-- What is read to the end alone is read to the end in a host. -/
theorem reaches_hosted {s : Text} {e : Element} (h : Reaches .initial s ⟨[], some e⟩)
    (host : Frame) (below : List Frame) (root : Option Element) :
    ∃ e' text, outline e' = outline e
      ∧ Reaches ⟨host :: below, root⟩ s ⟨host.holding [e'] text :: below, root⟩ := by
  have hstart : Hosted host below root .initial ⟨host :: below, root⟩ := by
    have hempty := @Hosted.intro host below root [] [] none [] host.element.text .nil rfl
    rw [host.holding_nil] at hempty
    exact hempty
  obtain ⟨c, hreach, hend⟩ := h.simulate Hosted.take hstart
  -- no element is open at the end, so the host is the innermost one again
  obtain @⟨_, _, _, children, text, above, roots⟩ := hend
  cases above
  rw [outlineAll_eq_map] at roots
  obtain ⟨e', rfl, he'⟩ := List.map_eq_singleton_iff.mp roots
  exact ⟨e', text, he', hreach⟩

/-- A character that is no markup joins the innermost open element. -/
theorem reaches_singleton {c : Char} (hc : c ≠ '<' ∧ c ≠ '&') (f : Frame) (fs : List Frame)
    (root : Option Element) :
    Reaches ⟨f :: fs, root⟩ [c] ⟨{ f with element := f.element.appendText [c] } :: fs, root⟩ := by
  have hscan : scan [c] = .token (.text [c]) [] :=
    scan_text_end (List.cons_ne_nil c []) (by simpa using hc.1.symm)
  have hread : unescape [c] = .ok [c] := by
    unfold unescape
    rw [unescape_go_plain hc.2]
    rfl
  refine .token hscan ?_ .done
  rw [Build.take, hread]
  rfl

/-- A byte order mark is all that reading can leave out. -/
theorem eq_dropMark (content : Text) :
    content = dropMark content ∨ content = Char.ofNat 0xFEFF :: dropMark content := by
  unfold dropMark Text.dropLead
  cases hmark : Text.after? [Char.ofNat 0xFEFF] content with
  | none => exact .inl rfl
  | some rest => exact .inr (List.isPrefixOf?_eq_some_iff_append_eq.mp hmark).symm

/-- **A document becomes a child of its host**, with the outline that it has alone.  A byte order
mark at its front is text of the host. -/
theorem reaches_of_read {content : Text} {e : Element} (h : read content = .ok e) (host : Frame)
    (below : List Frame) (root : Option Element) :
    ∃ e' text, outline e' = outline e
      ∧ Reaches ⟨host :: below, root⟩ content ⟨host.holding [e'] text :: below, root⟩ := by
  have hread := read_eq_ok.mp h
  rcases eq_dropMark content with hplain | hmarked
  · rw [← hplain] at hread
    exact reaches_hosted hread host below root
  · let marked : Frame :=
      { host with element := host.element.appendText [Char.ofNat 0xFEFF] }
    obtain ⟨e', text, he', hreach⟩ := reaches_hosted hread marked below root
    refine ⟨e', text, he', ?_⟩
    rw [hmarked]
    exact (reaches_singleton (by decide) host below root).append hreach

/-! ## §3. The text around a document. -/

/-- The same elements are open, whatever they hold, and the root is complete in both or in none. -/
structure SameOpen (b b' : Build) : Prop where
  frames : List.Forall₂ (fun f f' => f'.name = f.name ∧ f'.scope = f.scope) b.frames b'.frames
  root : b'.root.isSome = b.root.isSome

namespace SameOpen

variable {b b' c : Build}

theorem scope_eq (h : SameOpen b b') : b'.scope = b.scope := by
  obtain ⟨frames, root⟩ := b
  obtain ⟨frames', root'⟩ := b'
  cases h.frames with
  | nil => rfl
  | cons hf _ => exact hf.2

theorem add {e : Element} (h : SameOpen b b') (hadd : b.add e = .ok c) (e' : Element) :
    ∃ c', b'.add e' = .ok c' ∧ SameOpen c c' := by
  obtain ⟨frames, root⟩ := b
  obtain ⟨frames', root'⟩ := b'
  obtain ⟨hframes, hroot⟩ := h
  cases hframes with
  | nil =>
      cases root with
      | some r => exact absurd hadd (by simp [Build.add])
      | none =>
          obtain rfl := Option.isNone_iff_eq_none.mp (by simpa using hroot)
          obtain rfl := Except.ok.inj hadd
          exact ⟨_, rfl, .nil, rfl⟩
  | cons hf hframes =>
      obtain rfl := Except.ok.inj hadd
      exact ⟨_, rfl, .cons hf hframes, hroot⟩

theorem addText {s : Text} (h : SameOpen b b') (hadd : b.addText s = .ok c) :
    ∃ c', b'.addText s = .ok c' ∧ SameOpen c c' := by
  obtain ⟨frames, root⟩ := b
  obtain ⟨frames', root'⟩ := b'
  obtain ⟨hframes, hroot⟩ := h
  cases hframes with
  | nil =>
      unfold Build.addText at hadd ⊢
      simp only at hadd ⊢
      split at hadd
      next hblank =>
        obtain rfl := Except.ok.inj hadd
        exact ⟨_, if_pos hblank, .nil, hroot⟩
      next => exact absurd hadd (by simp)
  | cons hf hframes =>
      obtain rfl := Except.ok.inj hadd
      exact ⟨_, rfl, .cons hf hframes, hroot⟩

/-- **Whether a piece is taken does not depend on what the open elements hold.** -/
theorem take {t : Token} (h : SameOpen b b') (ht : b.take t = .ok c) :
    ∃ c', b'.take t = .ok c' ∧ SameOpen c c' := by
  cases takes_iff.mp ht with
  | aside => exact ⟨b', rfl, h⟩
  | text characters added =>
      obtain ⟨c', hadd, hc⟩ := h.addText added
      exact ⟨c', takes_iff.mpr (.text characters hadd), hc⟩
  | «section» added => exact h.addText added
  | start opened =>
      rw [← h.scope_eq] at opened
      exact ⟨_, takes_iff.mpr (.start opened), .cons ⟨rfl, rfl⟩ h.frames, h.root⟩
  | @empty _ f _ opened added =>
      rw [← h.scope_eq] at opened
      obtain ⟨c', hadd, hc⟩ := h.add added f.element
      exact ⟨c', takes_iff.mpr (.empty opened hadd), hc⟩
  | @close _ f fs _ innermost name added =>
      obtain ⟨frames, root⟩ := b
      obtain ⟨frames', root'⟩ := b'
      obtain ⟨hframes, hroot⟩ := h
      obtain rfl := innermost
      cases hframes with
      | @cons _ f' _ fs' hf hframes =>
          have hrest : SameOpen ⟨fs, root⟩ ⟨fs', root'⟩ := ⟨hframes, hroot⟩
          obtain ⟨c', hadd, hc⟩ := hrest.add added f'.element.settled
          exact ⟨c', takes_iff.mpr (.close rfl (name.trans hf.1.symm) hadd), hc⟩

end SameOpen

/-! ## §4. The open elements at a depth. -/

/-- The frame of the same element, with more in it. -/
structure Frame.Extends (f f' : Frame) : Prop where
  name : f'.element.name = f.element.name
  children : f.element.children <+: f'.element.children

theorem Frame.extends_rfl {f : Frame} : f.Extends f := ⟨rfl, List.prefix_rfl⟩

theorem Frame.extends_addChild (f : Frame) (e : Element) :
    f.Extends { f with element := f.element.addChild e } :=
  ⟨rfl, List.prefix_append _ _⟩

/-- The build still has the element at that depth open, with more in it. -/
def StillOpen (f : Frame) (below : List Frame) (root : Option Element) (b : Build) : Prop :=
  ∃ above f', b = ⟨above ++ f' :: below, root⟩ ∧ f.Extends f'

section

variable {f : Frame} {below : List Frame} {root : Option Element} {c : Build}

theorem add_above {above : List Frame} {e : Element}
    (h : Build.add ⟨above ++ f :: below, root⟩ e = .ok c) : StillOpen f below root c := by
  cases above with
  | nil =>
      obtain rfl := Except.ok.inj h
      exact ⟨[], _, rfl, f.extends_addChild e⟩
  | cons g above =>
      obtain rfl := Except.ok.inj h
      exact ⟨{ g with element := g.element.addChild e } :: above, f, rfl, Frame.extends_rfl⟩

theorem addText_above {above : List Frame} {s : Text}
    (h : Build.addText ⟨above ++ f :: below, root⟩ s = .ok c) : StillOpen f below root c := by
  cases above with
  | nil =>
      obtain rfl := Except.ok.inj h
      exact ⟨[], { f with element := f.element.appendText s }, rfl, rfl, List.prefix_rfl⟩
  | cons g above =>
      obtain rfl := Except.ok.inj h
      exact ⟨{ g with element := g.element.appendText s } :: above, f, rfl, Frame.extends_rfl⟩

/-- **A piece adds to the element at a depth, or it is its end tag.** -/
theorem take_above {above : List Frame} {t : Token}
    (h : Build.take ⟨above ++ f :: below, root⟩ t = .ok c) :
    StillOpen f below root c ∨ Build.add ⟨below, root⟩ f.element.settled = .ok c := by
  cases takes_iff.mp h with
  | aside => exact .inl ⟨above, f, rfl, Frame.extends_rfl⟩
  | text _ added => exact .inl (addText_above added)
  | «section» added => exact .inl (addText_above added)
  | @start _ g opened => exact .inl ⟨g :: above, f, rfl, Frame.extends_rfl⟩
  | empty _ added => exact .inl (add_above added)
  | close innermost _ added =>
      cases above with
      | nil =>
          obtain ⟨rfl, rfl⟩ := List.cons.inj innermost
          exact .inr added
      | cons g above =>
          obtain ⟨rfl, rfl⟩ := List.cons.inj innermost
          exact .inl (add_above added)

end

/-- A root that is complete stays what it is. -/
theorem root_take {b c : Build} {t : Token} {r : Element} (hr : b.root = some r)
    (h : b.take t = .ok c) : c.root = some r := by
  have hadd : ∀ {fs : List Frame} {e : Element},
      Build.add ⟨fs, b.root⟩ e = .ok c → c.root = some r := by
    intro fs e hc
    cases fs with
    | nil => exact absurd hc (by simp [Build.add, hr])
    | cons g fs => exact Except.ok.inj hc ▸ hr
  have haddText : ∀ {s : Text}, b.addText s = .ok c → c.root = some r := by
    intro s hc
    unfold Build.addText at hc
    split at hc
    next => exact Except.ok.inj hc ▸ hr
    next =>
      split at hc
      next => exact Except.ok.inj hc ▸ hr
      next => exact absurd hc (by simp)
  cases takes_iff.mp h with
  | aside => exact hr
  | text _ added => exact haddText added
  | «section» added => exact haddText added
  | start _ => exact hr
  | empty _ added => exact hadd added
  | close _ _ added => exact hadd added

end Crosswalk.Markup
