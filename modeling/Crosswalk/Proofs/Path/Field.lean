/-
  Crosswalk.Proofs.Path.Field
  ──────────────────────────────────────
  **FIELDS OF A DOCUMENT THAT WAS WRITTEN AND READ.**

  The names that make a path are found in it again (`steps_names`), and a
  slash path reads the element that its names lead to (`slashField?_eq`).
  A dot path sees local names and texts only, and a text that does not count
  is blank, so the outline of a document has its fields.  The normal form of a
  document has the same outline, and the prefixes that a slash path sees too.

    • `childLocal?_outline`, `child?_normalize`: one step,
    • `field?_outline`: the field at any dot path,
    • `field?_normalize`, `slashField?_normalize`: the fields of the normal
      form.
-/
import Crosswalk.Path.Field
import Crosswalk.Proofs.Markup.Uniform
import Crosswalk.Proofs.Text.Steps

namespace Crosswalk.Path

open Markup

/-! ## §1. Paths and their names. -/

/-- A walk that keeps account of its names goes where they lead. -/
theorem element_foldlM_step : ∀ (names : List Text) (p : Place),
    (names.foldlM Place.step p).toOption.map Place.element
      = names.foldlM Element.child? p.element := by
  intro names
  induction names with
  | nil => intro p; rfl
  | cons name names ih =>
      intro p
      rw [List.foldlM_cons, List.foldlM_cons, Place.step]
      cases p.element.child? name with
      | none => rfl
      | some c => exact ih ⟨c, p.walked ++ [name]⟩

/-- **A slash path reads the element that its names lead to.** -/
theorem slashField?_eq (root : Element) (path : Text) :
    slashField? root path
      = match Text.steps '/' (Text.dropLead targetMark path) with
        | [] => none
        | name :: names =>
          ((name :: names).foldlM Element.child? root).map Element.trimmedText := by
  unfold slashField? Place.navigate
  dsimp only
  cases Text.steps '/' (Text.dropLead targetMark path) with
  | nil => rfl
  | cons name names =>
      have hwalk : (name :: names).foldlM Element.child? root = _ :=
        (element_foldlM_step (name :: names) (Place.start root)).symm
      dsimp only
      rw [hwalk]
      cases (name :: names).foldlM Place.step (Place.start root) with
      | error e => rfl
      | ok place => rfl

/-- **The names that make a path are found in it.** -/
theorem steps_names {sep : Char} {names : List Text} (hname : ∀ n ∈ names, isName n = true)
    (hsep : ∀ n ∈ names, sep ∉ n) : Text.steps sep ([sep].intercalate names) = names :=
  Text.steps_intercalate hsep
    (fun n hn c hc => not_isBlank_of_isTagChar ((isTagName_of_isName (hname n hn)).2 c hc))
    fun n hn => ne_nil_of_isName (hname n hn)

theorem slash_not_mem_of_isName {n : Text} (h : isName n = true) : '/' ∉ n := fun hslash =>
  absurd (isNameChar_of_mem h '/' hslash) (by decide)

/-! ## §2. The outline of a document. -/

/-- A text that does not count is blank. -/
theorem collapse_countedText (cs : List Element) (text : Option Text) :
    ((countedText cs text).map Text.collapse).getD [] = (text.map Text.collapse).getD [] := by
  unfold countedText
  cases text with
  | none => rfl
  | some t =>
      by_cases hcounts : (!t.isEmpty && (cs.isEmpty || !Text.blank t)) = true
      · rw [Option.filter_some, if_pos hcounts]
      · rw [Option.filter_some, if_neg hcounts]
        have hblank : Text.blank t = true := by
          cases t with
          | nil => rfl
          | cons c t =>
              by_contra hblank
              exact hcounts (by simp [hblank])
        show [] = Text.collapse t
        rw [Text.collapse_of_blank hblank]

theorem trimmedText_outline (e : Element) : (outline e).trimmedText = e.trimmedText := by
  rw [outline_eq]
  exact collapse_countedText e.children e.text

/-- The children in the outline have the local names that they had. -/
theorem childLocal?_outline (e : Element) (name : Text) :
    (outline e).childLocal? name = (e.childLocal? name).map outline := by
  have hlocal : Element.matchesLocal name ∘ outline = Element.matchesLocal name := by
    funext c
    rw [Function.comp_apply, outline_eq]
    rfl
  unfold Element.childLocal?
  rw [outline_eq, outlineAll_eq_map, List.find?_map, hlocal]

/-- The same elements lie below it along local names. -/
theorem descend?_outline : ∀ (names : List Text) (e : Element),
    (descend? (outline e) names).map Element.trimmedText
      = (descend? e names).map Element.trimmedText := by
  intro names
  induction names with
  | nil => intro e; exact congrArg some (trimmedText_outline e)
  | cons name names ih =>
      intro e
      rw [descend?, descend?, childLocal?_outline]
      cases e.childLocal? name with
      | none => rfl
      | some c => exact ih c

theorem belowRoot_outline (e : Element) (segments : List Text) :
    belowRoot (outline e) segments = belowRoot e segments := by
  match segments with
  | [] => rfl
  | [_] => rfl
  | first :: second :: rest =>
      have hroot : (outline e).matchesLocal first = e.matchesLocal first := by
        rw [outline_eq]
        rfl
      have hchild : ((outline e).childLocal? first).isNone = (e.childLocal? first).isNone := by
        rw [childLocal?_outline, Option.isNone_map]
      rw [belowRoot, belowRoot, hroot, hchild]

theorem dotField?_outline (e : Element) (path : Text) :
    dotField? (outline e) path = dotField? e path := by
  unfold dotField?
  rw [belowRoot_outline]
  cases belowRoot e (Text.steps '.' path) with
  | nil => rfl
  | cons name names => exact descend?_outline (name :: names) e

/-- **The outline of a document has its fields.** -/
theorem field?_outline (e : Element) (path : Text) :
    field? (.markup (outline e)) path = field? (.markup e) path := by
  unfold field?
  cases Text.after? constantMark path with
  | some literal => rfl
  | none =>
      cases Text.after? sourceMark path with
      | some stripped => exact dotField?_outline e stripped
      | none => exact dotField?_outline e path

/-! ## §3. The normal form of a document. -/

section

variable (b : Bindings) (e : Element)

/-- The children of the normal form have the names that they had. -/
theorem child?_normalize (name : Text) :
    (normalize b e).child? name
      = (e.child? name).map (normalize (b.inside e.ns e.decls)) := by
  have hexact : Element.matchesExact name ∘ normalize (b.inside e.ns e.decls)
      = Element.matchesExact name := by
    funext c
    rw [Function.comp_apply, normalize_eq]
    rfl
  have hlocal : Element.matchesLocal name ∘ normalize (b.inside e.ns e.decls)
      = Element.matchesLocal name := by
    funext c
    rw [Function.comp_apply, normalize_eq]
    rfl
  unfold Element.child? Element.childExact? Element.childLocal?
  rw [normalize_eq]
  simp only [List.find?_map, hexact, hlocal, Option.map_or]

theorem trimmedText_normalize : (normalize b e).trimmedText = e.trimmedText := by
  rw [normalize_eq]
  exact collapse_countedText e.children e.text

/-- The normal form has the same fields at dot paths. -/
theorem field?_normalize (path : Text) :
    field? (.markup (normalize b e)) path = field? (.markup e) path := by
  rw [← field?_outline, outline_normalize, field?_outline]

end

/-- **The normal form of a document has the same fields** along any names. -/
theorem field_normalize : ∀ (names : List Text) (b : Bindings) (e : Element),
    (names.foldlM Element.child? (normalize b e)).map Element.trimmedText
      = (names.foldlM Element.child? e).map Element.trimmedText := by
  intro names
  induction names with
  | nil => intro b e; exact congrArg some (trimmedText_normalize b e)
  | cons name names ih =>
      intro b e
      rw [List.foldlM_cons, List.foldlM_cons, child?_normalize]
      cases e.child? name with
      | none => rfl
      | some c => exact ih (b.inside e.ns e.decls) c

theorem slashField?_normalize (b : Bindings) (e : Element) (path : Text) :
    slashField? (normalize b e) path = slashField? e path := by
  rw [slashField?_eq, slashField?_eq]
  cases Text.steps '/' (Text.dropLead targetMark path) with
  | nil => rfl
  | cons name names => exact field_normalize (name :: names) b e

end Crosswalk.Path
