/-
  Crosswalk.Proofs.Markup.Slot
  ──────────────────────────────────────
  **WHERE A TEXT STANDS IN MARKUP.**

  A `Slot` is a row of uniform trees without the text of one element in it.
  Its markup is fixed on both sides of that text (`before`, `after`), whatever
  the text is:

    • `Slot.markupsIn_fill`: the markup of the filled slot,
    • `Slot.eq_of_outlineAll_eq`: two texts that are not blank can be told
      apart in the filled slot,
    • `exists_slot`: a character that stands in no tag stands in the text of a
      slot.
-/
import Crosswalk.Proofs.Markup.Uniform

namespace Crosswalk.Markup

/-! ## §1. Slots. -/

/-- A row of trees without the text of one element. -/
inductive Slot
  /-- The text of an element of the row. -/
  | here (left : List Element) (name : Text) (children right : List Element)
  /-- A text further down in an element of the row. -/
  | deeper (left : List Element) (name : Text) (text : Option Text) (inner : Slot)
      (right : List Element)

namespace Slot

/-- The row with the text put in; the elements around it are in the given namespace. -/
def fill (ns : Option Namespace) (t : Text) : Slot → List Element
  | here left name children right => left ++ ⟨name, ns, [], [], children, some t⟩ :: right
  | deeper left name text inner right =>
    left ++ ⟨name, ns, [], [], inner.fill ns t, text⟩ :: right

/-- The markup before the text. -/
def before (pre : Text) : Slot → Text
  | here left name _ _ => markupsIn pre left ++ '<' :: (qualify pre name ++ ['>'])
  | deeper left name text inner _ =>
    markupsIn pre left ++ '<' :: (qualify pre name ++ '>' :: (escapeText (text.getD [])
      ++ inner.before pre))

/-- The markup after the text. -/
def after (pre : Text) : Slot → Text
  | here _ name children right =>
    markupsIn pre children ++ '<' :: '/' :: (qualify pre name ++ '>' :: markupsIn pre right)
  | deeper _ name _ inner right =>
    inner.after pre ++ '<' :: '/' :: (qualify pre name ++ '>' :: markupsIn pre right)

variable {ns : Option Namespace} {pre : Text}

theorem fill_ne_nil (t : Text) (slot : Slot) : slot.fill ns t ≠ [] := by
  cases slot <;> simp [fill]

/-- The markup of one element with content. -/
theorem markupIn_eq {name inner : Text} {children : List Element} {text : Option Text}
    (h : contentOf text children (markupsIn pre children) = some inner) :
    markupIn pre ⟨name, ns, [], [], children, text⟩
      = '<' :: (qualify pre name ++ '>' :: (inner ++ '<' :: '/' :: (qualify pre name ++ ['>']))) := by
  rw [markupIn, h, markupOf, tagBody, List.flatMap_nil, List.append_nil]

/-- **The markup of a filled slot** has the escaped text between two fixed pieces. -/
theorem markupsIn_fill (t : Text) : ∀ slot : Slot,
    markupsIn pre (slot.fill ns t) = slot.before pre ++ escapeText t ++ slot.after pre
  | here left name children right => by
      have hc : contentOf (some t) children (markupsIn pre children)
          = some (escapeText t ++ markupsIn pre children) := rfl
      rw [fill, markupsIn_append, markupsIn, markupIn_eq hc]
      simp [before, after]
  | deeper left name text inner right => by
      have hc : contentOf text (inner.fill ns t) (markupsIn pre (inner.fill ns t))
          = some (escapeText (text.getD []) ++ markupsIn pre (inner.fill ns t)) := by
        unfold contentOf
        rw [if_neg (by simp [fill_ne_nil])]
      rw [fill, markupsIn_append, markupsIn, markupIn_eq hc, markupsIn_fill t inner]
      simp [before, after]

/-- Before the text a tag ends. -/
theorem before_eq (pre : Text) : ∀ slot : Slot, ∃ b, slot.before pre = b ++ ['>']
  | here left name _ _ => ⟨markupsIn pre left ++ '<' :: qualify pre name, by simp [before]⟩
  | deeper left name text inner _ => by
      obtain ⟨b, hb⟩ := before_eq pre inner
      refine ⟨markupsIn pre left ++ '<' :: (qualify pre name ++ '>' :: (escapeText (text.getD [])
        ++ b)), ?_⟩
      rw [before, hb]
      simp

/-- Another text does not change that the trees are uniform. -/
theorem uniform_fill {t t' : Text} : ∀ {slot : Slot}, (∀ e ∈ slot.fill ns t, Uniform ns e) →
    ∀ e ∈ slot.fill ns t', Uniform ns e
  | here left name children right, h => by
      intro e he
      have hown : Uniform ns ⟨name, ns, [], [], children, some t⟩ := h _ (by simp [fill])
      rcases List.mem_append.mp he with he | he
      · exact h e (by simp [fill, he])
      rcases List.mem_cons.mp he with rfl | he
      · cases hown with
        | intro hname hcs => exact .intro hname hcs
      · exact h e (by simp [fill, he])
  | deeper left name text inner right, h => by
      intro e he
      have hown : Uniform ns ⟨name, ns, [], [], inner.fill ns t, text⟩ := h _ (by simp [fill])
      rcases List.mem_append.mp he with he | he
      · exact h e (by simp [fill, he])
      rcases List.mem_cons.mp he with rfl | he
      · cases hown with
        | intro hname hcs => exact .intro hname (uniform_fill hcs)
      · exact h e (by simp [fill, he])

/-- **Two texts that are not blank can be told apart** in the outlines of the filled slot. -/
theorem eq_of_outlineAll_eq {t t' : Text} (ht : Text.blank t = false) (ht' : Text.blank t' = false) :
    ∀ {slot : Slot}, outlineAll (slot.fill ns t) = outlineAll (slot.fill ns t') → t = t'
  | here left name children right, h => by
      have hcount : ∀ {s : Text}, Text.blank s = false → countedText children (some s) = some s := by
        intro s hs
        have hne : s ≠ [] := by
          rintro rfl
          exact absurd hs (by decide)
        simp [countedText, Option.filter, hs, hne]
      rw [fill, fill, outlineAll_append, outlineAll_append, outlineAll, outlineAll] at h
      have hhead := (List.cons.inj (List.append_cancel_left h)).1
      rw [outline, outline, hcount ht, hcount ht'] at hhead
      exact Option.some.inj (Element.mk.inj hhead).2.2.2.2.2
  | deeper left name text inner right, h => by
      rw [fill, fill, outlineAll_append, outlineAll_append, outlineAll, outlineAll] at h
      have hhead := (List.cons.inj (List.append_cancel_left h)).1
      rw [outline, outline] at hhead
      exact eq_of_outlineAll_eq ht ht' (Element.mk.inj hhead).2.2.2.2.1

/-! ## §2. More trees beside a slot. -/

/-- The slot in a longer row. -/
def beside (l r : List Element) : Slot → Slot
  | here left name children right => here (l ++ left) name children (right ++ r)
  | deeper left name text inner right => deeper (l ++ left) name text inner (right ++ r)

theorem fill_beside (l r : List Element) (t : Text) (slot : Slot) :
    (slot.beside l r).fill ns t = l ++ (slot.fill ns t ++ r) := by
  cases slot <;> simp [beside, fill]

theorem before_beside (l r : List Element) (slot : Slot) :
    (slot.beside l r).before pre = markupsIn pre l ++ slot.before pre := by
  cases slot <;> simp [beside, before, markupsIn_append]

theorem after_beside (l r : List Element) (slot : Slot) :
    (slot.beside l r).after pre = slot.after pre ++ markupsIn pre r := by
  cases slot <;> simp [beside, after, markupsIn_append]

/-! ## §3. The tags around a text. -/

/-- The text begins with a tag without spaces and quotes. -/
def StartsWithTag (s : Text) : Prop :=
  ∃ w z, s = '<' :: (w ++ '>' :: z) ∧ ∀ c ∈ w, isTagChar c = true ∨ c = '/'

theorem StartsWithTag.append {s : Text} (h : StartsWithTag s) (s' : Text) :
    StartsWithTag (s ++ s') := by
  obtain ⟨w, z, rfl, hw⟩ := h
  exact ⟨w, z ++ s', by simp, hw⟩

/-- No other character stands between the brackets of the tag. -/
theorem StartsWithTag.exists_tag {s : Text} (h : StartsWithTag s) :
    ∃ w z, s = '<' :: (w ++ '>' :: z) ∧ '>' ∉ w ∧ '"' ∉ w := by
  obtain ⟨w, z, rfl, hw⟩ := h
  have hnot : ∀ {c : Char}, isTagChar c = false → c ≠ '/' → c ∉ w := by
    intro c hc hslash hmem
    rcases hw c hmem with h | h
    · exact ne_of_isTagChar h hc rfl
    · exact hslash h
  exact ⟨w, z, rfl, hnot (by decide) (by decide), hnot (by decide) (by decide)⟩

theorem startsWithTag_close {name : Text} (hp : pre = [] ∨ isName pre = true)
    (hn : isName name = true) (s : Text) :
    StartsWithTag ('<' :: '/' :: (qualify pre name ++ '>' :: s)) := by
  refine ⟨'/' :: qualify pre name, s, rfl, fun c hc => ?_⟩
  rcases List.mem_cons.mp hc with rfl | hc
  · exact .inr rfl
  · exact .inl ((isTagName_qualify hp hn).2 c hc)

theorem startsWithTag_markupIn (hp : pre = [] ∨ isName pre = true) {e : Element}
    (h : Uniform ns e) : StartsWithTag (markupIn pre e) := by
  cases h with
  | @intro name children text hname _ =>
      have htag := (isTagName_qualify hp hname).2
      cases hc : contentOf text children (markupsIn pre children) with
      | none =>
          rw [markupIn, hc]
          refine ⟨qualify pre name ++ ['/'], [], by simp [markupOf, tagBody], fun c hmem => ?_⟩
          rcases List.mem_append.mp hmem with hmem | hmem
          · exact .inl (htag c hmem)
          · exact .inr (List.mem_singleton.mp hmem)
      | some inner =>
          rw [markupIn_eq hc]
          exact ⟨_, _, rfl, fun c hmem => .inl (htag c hmem)⟩

/-- After the text a tag begins. -/
theorem startsWithTag_after {t : Text} (hp : pre = [] ∨ isName pre = true) : ∀ {slot : Slot},
    (∀ e ∈ slot.fill ns t, Uniform ns e) → StartsWithTag (slot.after pre)
  | here left name children right, h => by
      have hown : Uniform ns ⟨name, ns, [], [], children, some t⟩ := h _ (by simp [fill])
      cases hown with
      | intro hname hcs =>
          cases children with
          | nil => exact startsWithTag_close hp hname _
          | cons c cs =>
              rw [after, markupsIn, List.append_assoc]
              exact (startsWithTag_markupIn hp (hcs c List.mem_cons_self)).append _
  | deeper left name text inner right, h => by
      have hown : Uniform ns ⟨name, ns, [], [], inner.fill ns t, text⟩ := h _ (by simp [fill])
      cases hown with
      | intro _ hcs => exact (startsWithTag_after hp hcs).append _

end Slot

/-! ## §4. Finding the slot. -/

open Slot

/-- In the markup of the row every equals sign stands in the text of a slot. -/
def HasSlots (ns : Option Namespace) (pre : Text) (es : List Element) : Prop :=
  ∀ x y, markupsIn pre es = x ++ '=' :: y → ∃ (slot : Slot) (t₁ t₂ : Text),
    slot.fill ns (t₁ ++ '=' :: t₂) = es ∧ x = slot.before pre ++ escapeText t₁
      ∧ y = escapeText t₂ ++ slot.after pre

variable {ns : Option Namespace} {pre : Text}

theorem hasSlots_of_forall : ∀ {es : List Element}, (∀ e ∈ es, HasSlots ns pre [e]) →
    HasSlots ns pre es
  | [], _, x, y, h => absurd h.symm (by simp [markupsIn])
  | e :: es, he, x, y, h => by
      rw [markupsIn] at h
      -- the sign stands in the first tree or in the others, and the slot goes beside the rest
      rcases Text.cut_append h with ⟨y', hy, hhit⟩ | ⟨x', hx, hhit⟩
      · have hone : markupsIn pre [e] = x ++ '=' :: y' := by
          rw [markupsIn, markupsIn, List.append_nil, hhit]
        obtain ⟨slot, t₁, t₂, hfill, hbefore, hafter⟩ := he e List.mem_cons_self x y' hone
        refine ⟨slot.beside [] es, t₁, t₂, ?_, ?_, ?_⟩
        · rw [fill_beside, hfill]
          rfl
        · rw [before_beside, hbefore]
          rfl
        · rw [after_beside, hy, hafter, List.append_assoc]
      · obtain ⟨slot, t₁, t₂, hfill, hbefore, hafter⟩ :=
          hasSlots_of_forall (fun d hd => he d (List.mem_cons_of_mem e hd)) x' y hhit
        refine ⟨slot.beside [e] [], t₁, t₂, ?_, ?_, ?_⟩
        · rw [fill_beside, hfill, List.append_nil]
          rfl
        · rw [before_beside, hx, hbefore, markupsIn, markupsIn]
          simp
        · rw [after_beside, hafter, markupsIn, List.append_nil]

/-- **An equals sign in uniform markup stands in a text.** -/
theorem exists_slot (hp : pre = [] ∨ isName pre = true) {e : Element} (h : Uniform ns e) :
    HasSlots ns pre [e] := by
  induction h with
  | @intro name children text hname _ ih =>
      intro x y hxy
      have htag : '=' ∉ qualify pre name := (isTagName_qualify hp hname).not_mem (by decide)
      rw [markupsIn, markupsIn, List.append_nil] at hxy
      cases hc : contentOf text children (markupsIn pre children) with
      | none =>
          rw [markupIn, hc] at hxy
          have hmem : '=' ∈ markupOf (qualify pre name) [] none := by
            rw [hxy]
            simp
          simp [markupOf, tagBody, htag] at hmem
      | some inner =>
          rw [markupIn_eq hc] at hxy
          -- the tags on both sides hold no equals sign, so it stands in the content
          have hopen : '=' ∉ '<' :: (qualify pre name ++ ['>']) := by simp [htag]
          have hclose : '=' ∉ '<' :: '/' :: (qualify pre name ++ ['>']) := by simp [htag]
          have hassoc : ('<' :: (qualify pre name ++ ['>']))
              ++ (inner ++ '<' :: '/' :: (qualify pre name ++ ['>'])) = x ++ '=' :: y := by
            rw [← hxy]
            simp
          obtain ⟨x₁, rfl, hrest⟩ := Text.cut_of_not_mem_left hopen hassoc
          obtain ⟨y₁, rfl, hcontent⟩ := Text.cut_of_not_mem_right hclose hrest
          rw [eq_of_contentOf_eq_some hc] at hcontent
          rcases Text.cut_append hcontent with ⟨y₂, rfl, htext⟩ | ⟨x₂, rfl, hcs⟩
          · obtain ⟨t₁, t₂, ht, h₁, h₂⟩ := escapeText_cut (by decide) htext
            have hsome : text = some (t₁ ++ '=' :: t₂) := by
              cases text with
              | none => exact absurd ht (by simp)
              | some t => exact congrArg some ht
            refine ⟨.here [] name children [], t₁, t₂, ?_, ?_, ?_⟩
            · rw [hsome]
              rfl
            · rw [← h₁]
              simp [before, markupsIn]
            · rw [← h₂]
              simp [after, markupsIn]
          · obtain ⟨slot, t₁, t₂, hfill, hbefore, hafter⟩ := hasSlots_of_forall ih x₂ y₁ hcs
            refine ⟨.deeper [] name text slot [], t₁, t₂, ?_, ?_, ?_⟩
            · rw [← hfill]
              rfl
            · rw [hbefore]
              simp [before, markupsIn]
            · rw [hafter]
              simp [after, markupsIn]

end Crosswalk.Markup
