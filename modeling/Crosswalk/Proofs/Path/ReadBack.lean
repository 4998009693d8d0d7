/-
  Crosswalk.Proofs.Path.ReadBack
  ──────────────────────────────────────
  **READING WHAT WAS WRITTEN AT A PATH.**

  The writer and the reader of slash paths cut a path into the same names and
  choose the same child for each of them, so a value is read back where it was
  put.  They differ in one thing: a leading name of the root is dropped by the
  writer when more names follow, and is walked along by the reader
  (`OpensWithRoot`).  Such a path is written one level above the place it is
  read from, and what is read there is what was read before.

    • `namesBelow_eq`, `namesBelow_of_opens`: the names that are written,
    • `text_assign`, `text_assign_of_length_lt`: the text at the names that a
      value was put at, and at longer ones,
    • `slashField?_set`: the field of a path after the path was written.
-/
import Crosswalk.Proofs.Path.Frame

namespace Crosswalk.Path

open Markup

/-! ## §1. The names of the writer and of the reader. -/

/-- The first of several names of a slash path is that of the root. -/
def OpensWithRoot (root path : Text) : Prop :=
  ∃ second rest, Text.steps '/' (Text.dropLead targetMark path) = root :: second :: rest

/-- The path bears no mark of the dotted notation. -/
def IsSlashed (path : Text) : Prop :=
  Text.after? sourceMark (Text.dropLead targetMark path) = none

instance (path : Text) : Decidable (IsSlashed path) :=
  inferInstanceAs (Decidable (_ = none))

section

variable {root path : Text}

theorem slashed_eq (h : IsSlashed path) : slashed path = Text.dropLead targetMark path := by
  unfold slashed
  dsimp only
  rw [h]

/-- **The names that are written are the names that are read**, unless the path opens with the
root. -/
theorem namesBelow_eq (h : IsSlashed path) (hroot : ¬ OpensWithRoot root path) :
    namesBelow root path = Text.steps '/' (Text.dropLead targetMark path) := by
  unfold namesBelow
  rw [slashed_eq h]
  split
  next first second rest hsteps =>
    have hne : first ≠ root := by
      rintro rfl
      exact hroot ⟨second, rest, hsteps⟩
    rw [hsteps]
    exact if_neg hne
  next => rfl

/-- In a path that opens with the root its name is read and not written. -/
theorem namesBelow_of_opens (h : IsSlashed path) (hroot : OpensWithRoot root path) :
    Text.steps '/' (Text.dropLead targetMark path) = root :: namesBelow root path
      ∧ namesBelow root path ≠ [] := by
  obtain ⟨second, rest, hsteps⟩ := hroot
  have hnames : namesBelow root path = second :: rest := by
    unfold namesBelow
    rw [slashed_eq h, hsteps]
    exact if_pos rfl
  rw [hnames]
  exact ⟨hsteps, nofun⟩

end

/-! ## §2. A value at names. -/

section

variable {root : Element} {path : Text} {names : List Text}

theorem set_eq_assign (value : Text) (h : namesBelow root.name path ≠ []) :
    set root (some path) (some value) = assign value root (namesBelow root.name path) := by
  unfold set
  cases hnames : namesBelow root.name path with
  | nil => exact absurd hnames h
  | cons n names => simp only [hnames]

/-- The field at a slash path is the text at the position of its names. -/
theorem slashField?_eq_position (root : Element)
    (h : Text.steps '/' (Text.dropLead targetMark path) ≠ []) :
    slashField? root path = ((position? root (Text.steps '/' (Text.dropLead targetMark path))).bind
      root.get?).map Element.trimmedText := by
  rw [slashField?_eq]
  cases hsteps : Text.steps '/' (Text.dropLead targetMark path) with
  | nil => exact absurd hsteps h
  | cons n names =>
      show ((n :: names).foldlM Element.child? root).map Element.trimmedText = _
      rw [foldlM_child?_eq]

/-- Names that lead somewhere lead to an element. -/
theorem exists_get?_of_position? : ∀ {names : List Text} {e : Element} {is : List Nat},
    position? e names = some is → ∃ x, e.get? is = some x := by
  intro names
  induction names with
  | nil =>
      intro e is h
      rw [← Option.some.inj h]
      exact ⟨e, rfl⟩
  | cons n names ih =>
      intro e is h
      obtain ⟨i, c, is', -, hc, hrest, rfl⟩ := position?_cons_eq_some.mp h
      obtain ⟨x, hx⟩ := ih hrest
      exact ⟨x, Option.bind_eq_some_iff.mpr ⟨c, hc, hx⟩⟩

/-- **At the names that were written the value is read**, up to its white space. -/
theorem text_assign {value : Text} (h : (assign value root names).2 = none) :
    ((position? (assign value root names).1 names).bind (assign value root names).1.get?).map
      Element.trimmedText = some (Text.collapse value) := by
  obtain ⟨is, x, his, hget, htext⟩ := exists_position?_assign value h
  rw [his, Option.bind_some, hget, Option.map_some, Element.trimmedText, htext]
  rfl

/-- **At longer names the text is what it was.** -/
theorem text_assign_of_length_lt (value : Text) {longer : List Text}
    (h : names.length < longer.length) :
    ((position? (assign value root names).1 longer).bind (assign value root names).1.get?).map
      Element.trimmedText = ((position? root longer).bind root.get?).map Element.trimmedText := by
  rw [position?_assign_of_length_lt value h]
  cases his : position? root longer with
  | none => rfl
  | some is =>
      obtain ⟨x, hx⟩ := exists_get?_of_position? his
      obtain ⟨cs, hget⟩ := get?_assign value names hx
      -- the written element lies less deep than this one
      have hother : position? root names ≠ some is := by
        intro hwritten
        have hlong := length_position? his
        have hshort := length_position? hwritten
        omega
      rw [if_neg hother] at hget
      rw [Option.bind_some, Option.bind_some, hget, hx]
      rfl

end

/-! ## §3. A value at a path. -/

/-- **READING BACK WHAT WAS WRITTEN.**  For every tree, every slash path with a name and every value:
when the path could be written, the value is read from it with its white space collapsed, unless the
path opens with the root; then the path reads what it read before, whether the value could be put
there or not. -/
theorem slashField?_set (root : Element) (path value : Text) (hslashed : IsSlashed path)
    (hsteps : Text.steps '/' (Text.dropLead targetMark path) ≠ []) :
    (¬ OpensWithRoot root.name path → (set root (some path) (some value)).2 = none →
        slashField? (set root (some path) (some value)).1 path = some (Text.collapse value))
      ∧ (OpensWithRoot root.name path →
        slashField? (set root (some path) (some value)).1 path = slashField? root path) := by
  refine ⟨fun hroot hok => ?_, fun hroot => ?_⟩
  · have hnames := namesBelow_eq hslashed hroot
    have hwritten : namesBelow root.name path ≠ [] := by rwa [hnames]
    have hset := set_eq_assign value hwritten
    rw [slashField?_eq_position _ hsteps, ← hnames]
    rw [hset] at hok ⊢
    exact text_assign hok
  · obtain ⟨hread, hwritten⟩ := namesBelow_of_opens hslashed hroot
    rw [slashField?_eq_position _ hsteps, slashField?_eq_position _ hsteps,
      set_eq_assign value hwritten]
    apply text_assign_of_length_lt
    rw [hread, List.length_cons]
    exact Nat.lt_succ_self _

/-- A document to which a value is written by a path with the name of its root is read without it. -/
theorem slashField?_set_document :
    IsSlashed "Document/A".toList
      ∧ Text.steps '/' (Text.dropLead targetMark "Document/A".toList) ≠ []
      ∧ (set (.bare "Document".toList none) (some "Document/A".toList) (some "1".toList)).2 = none
      ∧ slashField? (set (.bare "Document".toList none) (some "Document/A".toList)
          (some "1".toList)).1 "Document/A".toList = none
      ∧ slashField? (set (.bare "Document".toList none) (some "target: A / B".toList)
          (some " 1  2 ".toList)).1 "target: A / B".toList = some "1 2".toList := by
  have hslashed : IsSlashed "Document/A".toList := by decide
  have hsteps : Text.steps '/' (Text.dropLead targetMark "Document/A".toList) ≠ [] := by decide
  obtain ⟨-, hroot⟩ := slashField?_set (.bare "Document".toList none) "Document/A".toList
    "1".toList hslashed hsteps
  obtain ⟨hback, -⟩ := slashField?_set (.bare "Document".toList none) "target: A / B".toList
    " 1  2 ".toList (by decide) (by decide)
  refine ⟨hslashed, hsteps, by decide, (hroot ⟨"A".toList, [], by decide⟩).trans (by decide),
    (hback ?_ (by decide)).trans (by decide)⟩
  rintro ⟨second, rest, h⟩
  exact absurd (List.cons.inj h).1 (by decide)

end Crosswalk.Path
