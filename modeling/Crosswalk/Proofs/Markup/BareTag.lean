/-
  Crosswalk.Proofs.Markup.BareTag
  ──────────────────────────────────────
  **A DOCUMENT WITH ANY TEXT FOR THE NAME OF ITS ROOT.**

  The writer puts the name of an element into its tags without looking at it.
  A text that stays in the tag (`StaysInTag`) is cut where the writer ended
  the tag, and it is the name of an element when it holds neither white space
  nor a prefix:

    • `openElement_of_space`: what follows white space is no attribute,
    • `read_bareTag`, `read_bareTag_ne_ok`: the document is read, or not.
-/
import Crosswalk.Proofs.Markup.Uniform

namespace Crosswalk.Markup

/-! ## §1. Texts that stay in a tag. -/

/-- A text that is a tag alone when it stands between brackets: nothing in it ends the tag or opens
a quote, and the tag is neither an end tag nor that of an empty element. -/
structure StaysInTag (s : Text) : Prop where
  closed : ∀ c ∈ s, c ∉ ['>', '"', '\'']
  nonempty : s ≠ []
  head : ∀ c ∈ s.head?, c ∉ ['!', '?', '/']
  last : s.getLast? ≠ some '/'

section

variable {s : Text} (h : StaysInTag s)
include h

theorem StaysInTag.isBody : IsBody s where
  sealed := sealed_of_plain fun c hc => by simpa using h.closed c hc
  nonempty := h.nonempty
  head := h.head
  last := h.last

/-- Without white space it is the name of the tag. -/
theorem StaysInTag.opensTag (hspace : ∀ c ∈ s, isSpace c = false) : OpensTag s where
  plain c hc := by
    have hclosed := h.closed c hc
    simp only [List.mem_cons, List.not_mem_nil, or_false, not_or] at hclosed
    simp [isPlain, hspace c hc, hclosed]
  nonempty := h.nonempty
  head := h.head
  last := h.last

end

/-- The name of an element stays in its tag. -/
theorem OpensTag.staysInTag {s : Text} (h : OpensTag s) : StaysInTag s where
  closed c hc := by
    have hplain := h.plain c hc
    unfold isPlain at hplain
    simp only [Bool.and_eq_true, bne_iff_ne] at hplain
    simp [hplain]
  nonempty := h.nonempty
  head := h.head
  last := h.last

/-! ## §2. Attributes without quotes. -/

/-- Without quotes nothing is an attribute. -/
theorem nextAttribute_of_unquoted {s : Text} (hquote : ∀ c ∈ s, c ∉ ['"', '\''])
    (hne : s.dropWhile isSpace ≠ []) (size : Nat) (seen : List (Text × Nat)) :
    ∃ f, nextAttribute size seen s = .fault f := by
  unfold nextAttribute
  split
  next hnil => exact absurd hnil hne
  next c cs hs =>
    dsimp only
    split
    next value hvalue =>
      split
      next => exact ⟨_, rfl⟩
      next =>
        split
        next => exact ⟨_, rfl⟩
        next q content hq =>
          -- what stands for the value is still a part of the text
          have hmem : q ∈ value := (List.dropWhile_sublist isSpace).subset (by rw [hq]; simp)
          have hmem' : q ∈ cs := (List.dropWhile_sublist _).subset
            ((List.dropWhile_sublist isSpace).subset (by rw [hvalue]; simp [hmem]))
          have hmem'' : q ∈ s := (List.dropWhile_sublist isSpace).subset (by rw [hs]; simp [hmem'])
          have hq' := hquote q hmem''
          simp only [List.mem_cons, List.not_mem_nil, or_false] at hq'
          rw [if_neg hq']
          exact ⟨_, rfl⟩
    next => exact ⟨_, rfl⟩

/-- **White space in a tag without quotes makes it faulty**, unless nothing follows. -/
theorem openElement_of_space {s : Text} (hquote : ∀ c ∈ s, c ∉ ['"', '\'']) {c : Char} (hc : c ∈ s)
    (hspace : isSpace c = true) (hlast : ∀ d ∈ s.getLast?, isSpace d = false) (scope : Scope) :
    ∃ f, openElement s scope = .error (.tag f) := by
  let attributes : Text := s.dropWhile (fun c => !isSpace c)
  have hsub : attributes <:+ s := List.dropWhile_suffix _
  have hne : attributes ≠ [] := fun hnil => by
    have hall := List.dropWhile_eq_nil_iff.mp hnil c hc
    rw [hspace] at hall
    exact absurd hall (by decide)
  -- the text ends behind the white space, in a character that is not white space
  have hrest : attributes.dropWhile isSpace ≠ [] := fun hnil => by
    obtain ⟨front, hfront⟩ := hsub
    have hmem : attributes.getLast hne ∈ s.getLast? := by
      rw [← hfront, List.getLast?_append, List.getLast?_eq_getLast_of_ne_nil hne]
      rfl
    have hall := List.dropWhile_eq_nil_iff.mp hnil _ (List.getLast_mem hne)
    rw [hlast _ hmem] at hall
    exact absurd hall (by decide)
  obtain ⟨f, hf⟩ := nextAttribute_of_unquoted (fun d hd => hquote d (hsub.subset hd)) hrest
    (Text.byteSize s) []
  have hread : tagAttributes s = .error (.form f) := by
    unfold tagAttributes
    rw [readAttributes]
    split
    next hdone => exact absurd (hf.symm.trans hdone) (by simp)
    next g hfault => rw [AttributeScan.fault.inj (hf.symm.trans hfault)]
    next hfound => exact absurd (hf.symm.trans hfound) (by simp)
  refine ⟨.form f, ?_⟩
  unfold openElement
  rw [hread]

/-! ## §3. Documents. -/

section

variable {s : Text} {ns : Option Namespace} {es : List Element}

/-- **A text with neither white space nor a prefix names the root.** -/
theorem read_bareTag (h : StaysInTag s) (hspace : ∀ c ∈ s, isSpace c = false) {name : Text}
    (hsplit : splitQualified s = ([], name)) (hes : ∀ e ∈ es, Uniform ns e) :
    ∃ e, read (documentOf s [] [] es) = .ok e ∧ e.ns = none
      ∧ outline e = { Element.bare name none with children := outlineAll es } :=
  declares_nil.read_documentOf (h.opensTag hspace) hsplit rfl hes (.inl rfl)

/-- **With white space or a prefix in it there is no document.** -/
theorem read_bareTag_ne_ok (h : StaysInTag s) (hlast : ∀ c ∈ s.getLast?, isSpace c = false)
    (hbad : ¬ ((∀ c ∈ s, isSpace c = false) ∧ (splitQualified s).1 = [])) (e : Element) :
    read (documentOf s [] [] es) ≠ .ok e := by
  by_cases hspace : ∀ c ∈ s, isSpace c = false
  · -- nothing declares the prefix
    have hpre : (splitQualified s).1 ≠ [] := fun hnil => hbad ⟨hspace, hnil⟩
    have hnone : resolve? [] (splitQualified s).1 = none := if_neg (by simpa using hpre)
    exact declares_nil.read_documentOf_ne_ok (h.opensTag hspace) rfl hnone e
  · -- the reader stops in the tag of the root, so what is below does not matter
    simp only [not_forall, Bool.not_eq_false] at hspace
    obtain ⟨c, hc, hspace⟩ := hspace
    have hquote : ∀ c ∈ s, c ∉ ['"', '\''] := fun c hc hmem =>
      h.closed c hc (List.mem_cons_of_mem _ hmem)
    obtain ⟨f, hf⟩ := openElement_of_space hquote hc hspace hlast []
    have hbody : tagBody s [] = s := List.append_nil s
    unfold documentOf
    rw [Ne, read_declarationLine (markupOf_eq_cons _ _ _), List.map_nil,
      readFrom_markupOf_refused (b := .initial) (by rw [hbody]; exact h.isBody)
        (by rw [hbody]; exact hf)]
    exact nofun

end

end Crosswalk.Markup
