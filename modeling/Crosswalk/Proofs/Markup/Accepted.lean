/-
  Crosswalk.Proofs.Markup.Accepted
  ──────────────────────────────────────
  **WHAT HOLDS OF EVERY TREE THAT IS READ.**

  A text that is read need not have been written by this library, so nothing
  is known about its names.  Still every element of the tree has these
  properties (`Element.Accepted`): no URI in it is empty, no further
  declaration repeats its own namespace, no attribute is a declaration, no two
  attributes have one name, and no blank text stands beside children.

    • `opened_openElement`: what a start tag opens has them,
    • `Build.Sound.take`: a piece keeps them of all elements read so far,
    • `accepted_of_read`: so the tree at the end has them everywhere.
-/
import Crosswalk.Proofs.Markup.Reach

namespace Crosswalk.Markup

/-! ## §1. Properties of all elements of a tree. -/

/-- The property holds of the element and of all elements below. -/
inductive Everywhere (P : Element → Prop) : Element → Prop
  | intro {e : Element} (here : P e) (below : ∀ c ∈ e.children, Everywhere P c) : Everywhere P e

variable {P Q : Element → Prop} {e : Element}

theorem Everywhere.here (h : Everywhere P e) : P e := by
  cases h with
  | intro here _ => exact here

theorem Everywhere.children (h : Everywhere P e) : ∀ c ∈ e.children, Everywhere P c := by
  cases h with
  | intro _ below => exact below

theorem Everywhere.imp (hpq : ∀ e, P e → Q e) (h : Everywhere P e) : Everywhere Q e := by
  induction h with
  | intro here _ ih => exact .intro (hpq _ here) ih

theorem Everywhere.and (hp : Everywhere P e) (hq : Everywhere Q e) :
    Everywhere (fun e => P e ∧ Q e) e := by
  induction hp with
  | intro here _ ih =>
      exact .intro ⟨here, hq.here⟩ fun c hc => ih c hc (hq.children c hc)

/-- What the start tag settles about an element. -/
structure Element.Opened (e : Element) : Prop where
  space : ∀ ns, e.ns = some ns → ns.uri ≠ []
  colon : ':' ∉ e.pre
  decls : ∀ d ∈ e.decls, d.uri ≠ [] ∧ some d ≠ e.ns
  attrs : ∀ a ∈ e.attrs, a.binding? = none
  attrNames : (e.attrs.map Attribute.name).Nodup

/-- What is known about an element that was read. -/
structure Element.Accepted (e : Element) : Prop where
  tag : e.Opened
  text : e.children ≠ [] → ∀ t, e.text = some t → Text.blank t = false

/-! ## §2. Start tags. -/

theorem fresh_of_nextAttribute {size pos : Nat} {seen : List (Text × Nat)} {s name raw rest : Text}
    (h : nextAttribute size seen s = .found name pos raw rest) : name ∉ seen.map Prod.fst := by
  unfold nextAttribute at h
  split at h
  next => exact AttributeScan.noConfusion h
  next c cs _ =>
    simp only at h
    split at h
    next value _ =>
      split at h
      next => exact AttributeScan.noConfusion h
      next hseen =>
        -- no name before it is the one that is found
        have hname : name = c :: cs.takeWhile (fun c => c != '=' && !isSpace c) := by
          repeat' split at h
          all_goals simp_all
        rw [List.find?_eq_none] at hseen
        intro hmem
        obtain ⟨p, hp, hfst⟩ := List.mem_map.mp hmem
        exact hseen p hp (by simpa [← hname] using hfst)
    next => exact AttributeScan.noConfusion h

/-- The attributes of a tag have different names, and none that came before. -/
theorem nodup_readAttributes {size : Nat} :
    ∀ {seen : List (Text × Nat)} {s : Text} {attrs : List Attribute},
      readAttributes size seen s = .ok attrs →
      (attrs.map Attribute.name).Nodup ∧ ∀ a ∈ attrs, a.name ∉ seen.map Prod.fst := by
  intro seen s
  induction seen, s using readAttributes.induct size with
  | case1 seen s hnext =>
      intro attrs h
      rw [readAttributes] at h
      split at h <;> simp_all
  | case2 seen s f hnext =>
      intro attrs h
      rw [readAttributes] at h
      split at h <;> simp_all
  | case3 seen s name pos raw rest hnext f hraw =>
      intro attrs h
      rw [readAttributes] at h
      split at h <;> simp_all
  | case4 seen s name pos raw rest hnext value hraw _ ih =>
      intro attrs h
      rw [readAttributes] at h
      split at h
      next hnext' => simp_all
      next hnext' => simp_all
      next name' pos' raw' rest' hnext' =>
        rw [hnext] at hnext'
        obtain ⟨rfl, rfl, rfl, rfl⟩ := AttributeScan.found.inj hnext'
        rw [hraw] at h
        simp only at h
        cases hrest : readAttributes size ((name, pos) :: seen) rest with
        | error f =>
            rw [hrest] at h
            exact absurd h (by simp [Except.map])
        | ok others =>
            rw [hrest] at h
            obtain rfl := Except.ok.inj h
            obtain ⟨hd, hfresh⟩ := ih hrest
            refine ⟨?_, ?_⟩
            · rw [List.map_cons, List.nodup_cons]
              refine ⟨?_, hd⟩
              intro hmem
              obtain ⟨a, ha, hname⟩ := List.mem_map.mp hmem
              exact hfresh a ha (by rw [List.map_cons, hname]; exact List.mem_cons_self)
            · intro a ha
              rcases List.mem_cons.mp ha with rfl | ha
              · exact fresh_of_nextAttribute hnext
              · exact fun hmem => hfresh a ha (List.mem_cons_of_mem _ hmem)

theorem colon_not_mem_splitQualified (s : Text) : ':' ∉ (splitQualified s).1 := by
  unfold splitQualified
  rw [List.span_eq_takeWhile_dropWhile]
  have htake : ':' ∉ s.takeWhile (· != ':') := by
    intro h
    have hne := List.mem_takeWhile_imp h
    exact absurd hne (by decide)
  cases s.dropWhile (· != ':') with
  | nil => simp
  | cons c cs => exact htake

theorem mem_of_mem_distinct {ns : Namespace} : ∀ {nss : List Namespace}, ns ∈ distinct nss → ns ∈ nss
  | [], h => h
  | m :: nss, h => by
      rcases List.mem_cons.mp h with rfl | h
      · exact List.mem_cons_self
      · exact List.mem_cons_of_mem m (mem_of_mem_distinct (List.mem_filter.mp h).1)

/-- **What a start tag opens** has the properties of a tag, and no content. -/
theorem opened_openElement {body : Text} {scope : Scope} {f : Frame}
    (h : openElement body scope = .ok f) :
    f.element.Opened ∧ f.element.children = [] ∧ f.element.text = none := by
  obtain ⟨attrs, ns, hattrs, hresolve, rfl⟩ := openElement_eq_ok.mp h
  refine ⟨⟨?_, ?_, ?_, ?_, ?_⟩, rfl, rfl⟩
  · rintro m rfl
    exact (binding?_of_resolve? hresolve).2
  · show ':' ∉ (ns.map Namespace.pre).getD []
    cases ns with
    | none => simp
    | some m =>
        have hpre : m.pre = (splitQualified (tagName body)).1 := by
          simpa using List.find?_some (binding?_of_resolve? hresolve).1
        show ':' ∉ m.pre
        rw [hpre]
        exact colon_not_mem_splitQualified (tagName body)
  · intro d hd
    have hmem := (List.mem_filter.mp (mem_of_mem_distinct hd)).2
    simp only [ne_eq, decide_not, Bool.and_eq_true, Bool.not_eq_eq_eq_not, Bool.not_true,
      decide_eq_false_iff_not] at hmem
    exact ⟨by simpa using hmem.2, hmem.1⟩
  · intro a ha
    simpa using (List.mem_filter.mp ha).2
  · exact (nodup_readAttributes hattrs).1.sublist (List.filter_sublist.map _)

/-! ## §3. The elements read so far. -/

/-- All elements read so far have the properties of what is read. -/
structure Build.Sound (b : Build) : Prop where
  frames : ∀ f ∈ b.frames, f.element.Opened ∧ ∀ c ∈ f.element.children, Everywhere Element.Accepted c
  root : ∀ e, b.root = some e → Everywhere Element.Accepted e

theorem sound_initial : Build.initial.Sound := ⟨nofun, nofun⟩

/-- A complete element joins its parent, or is the root. -/
theorem Build.Sound.add {b b' : Build} {e : Element} (h : b.Sound)
    (he : Everywhere Element.Accepted e) (hadd : b.add e = .ok b') : b'.Sound := by
  obtain ⟨frames, root⟩ := b
  cases frames with
  | cons f fs =>
      obtain rfl := Except.ok.inj hadd
      obtain ⟨hf, hchildren⟩ := h.frames f List.mem_cons_self
      refine ⟨?_, h.root⟩
      intro g hg
      rcases List.mem_cons.mp hg with rfl | hg
      · refine ⟨⟨hf.space, hf.colon, hf.decls, hf.attrs, hf.attrNames⟩, ?_⟩
        intro c hc
        rcases List.mem_append.mp hc with hc | hc
        · exact hchildren c hc
        · obtain rfl := List.mem_singleton.mp hc
          exact he
      · exact h.frames g (List.mem_cons_of_mem f hg)
  | nil =>
      cases root with
      | none =>
          obtain rfl := Except.ok.inj hadd
          refine ⟨nofun, ?_⟩
          intro e' he'
          obtain rfl := Option.some.inj he'
          exact he
      | some r => exact absurd hadd (by simp [Build.add])

theorem Build.Sound.addText {b b' : Build} {s : Text} (h : b.Sound)
    (hadd : b.addText s = .ok b') : b'.Sound := by
  obtain ⟨frames, root⟩ := b
  cases frames with
  | cons f fs =>
      obtain rfl := Except.ok.inj hadd
      refine ⟨?_, h.root⟩
      intro g hg
      rcases List.mem_cons.mp hg with rfl | hg
      · obtain ⟨hf, hchildren⟩ := h.frames f List.mem_cons_self
        exact ⟨⟨hf.space, hf.colon, hf.decls, hf.attrs, hf.attrNames⟩, hchildren⟩
      · exact h.frames g (List.mem_cons_of_mem f hg)
  | nil =>
      unfold Build.addText at hadd
      simp only at hadd
      split at hadd
      next => exact Except.ok.inj hadd ▸ h
      next => exact absurd hadd (by simp)

/-- At the end tag an element loses blank text beside its children. -/
theorem accepted_settled {e : Element} (h : e.Opened)
    (hchildren : ∀ c ∈ e.children, Everywhere Element.Accepted c) :
    Everywhere Element.Accepted e.settled := by
  unfold Element.settled
  by_cases hdrop : (!e.children.isEmpty && (e.text.map Text.blank).getD false) = true
  · rw [if_pos hdrop]
    exact .intro ⟨⟨h.space, h.colon, h.decls, h.attrs, h.attrNames⟩, fun _ t ht => absurd ht nofun⟩
      hchildren
  · rw [if_neg hdrop]
    refine .intro ⟨h, ?_⟩ hchildren
    intro hne t ht
    simpa [hne, ht] using hdrop

/-- **One piece keeps the properties** of all elements read so far. -/
theorem Build.Sound.take {b b' : Build} {t : Token} (h : b.Sound) (ht : b.take t = .ok b') :
    b'.Sound := by
  cases takes_iff.mp ht with
  | aside => exact h
  | text _ added => exact h.addText added
  | «section» added => exact h.addText added
  | start opened =>
      obtain ⟨hf, hnone, -⟩ := opened_openElement opened
      refine ⟨?_, h.root⟩
      intro g hg
      rcases List.mem_cons.mp hg with rfl | hg
      · exact ⟨hf, fun c hc => absurd hc (by simp [hnone])⟩
      · exact h.frames g hg
  | empty opened added =>
      obtain ⟨hf, hnone, -⟩ := opened_openElement opened
      exact h.add (.intro ⟨hf, fun hne => absurd hnone hne⟩ (by simp [hnone])) added
  | @close _ f fs _ innermost _ added =>
      obtain ⟨hf, hchildren⟩ := h.frames f (by simp [innermost])
      have hrest : Build.Sound ⟨fs, b.root⟩ :=
        ⟨fun g hg => h.frames g (by simp [innermost, hg]), h.root⟩
      exact hrest.add (accepted_settled hf hchildren) added

/-- **EVERY ELEMENT THAT IS READ** has the properties of what is read, whatever the text. -/
theorem accepted_of_read {content : Text} {e : Element} (h : read content = .ok e) :
    Everywhere Element.Accepted e := by
  have hreach := read_eq_ok.mp h
  have hsound : Build.Sound ⟨[], some e⟩ := hreach.invariant Build.Sound.take sound_initial
  exact hsound.root e rfl

end Crosswalk.Markup
