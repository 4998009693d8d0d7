/-
  Crosswalk.Proofs.Path.Walk
  ──────────────────────────────────────
  **WALKS ONE AFTER THE OTHER.**

  A place knows the names that led to it, so a walk can be broken off anywhere
  and gone on with: the element is the same, and a step without a target is
  reported with the same path.

    • `navigate_eq_error_iff`: where a walk fails, and what it reports,
    • `navigate_append`: paths one behind the other.
-/
import Crosswalk.Path.Walk
import Crosswalk.Proofs.Text.Steps

namespace Crosswalk.Path.Place

open Markup

variable {place reached : Place} {path : Text}

/-! ## §1. Names walked. -/

/-- One step goes to a child and remembers its name. -/
theorem step_eq_ok_iff {name : Text} : place.step name = .ok reached
    ↔ ∃ c, place.element.child? name = some c ∧ reached = ⟨c, place.walked ++ [name]⟩ := by
  unfold step
  cases place.element.child? name with
  | none => simp
  | some c => simp [eq_comm]

/-- One step fails when there is no child, with all names up to it. -/
theorem step_eq_error_iff {name : Text} {e : DocumentError} : place.step name = .error e
    ↔ place.element.child? name = none
      ∧ e = .notFound (['/'].intercalate (place.walked ++ [name])) := by
  unfold step
  cases place.element.child? name with
  | none => simp [eq_comm]
  | some c => simp

/-- A walk fails at the first name without a child. -/
theorem foldlM_eq_error_iff {e : DocumentError} : ∀ (names : List Text) (place : Place),
    names.foldlM step place = .error e
      ↔ ∃ front name back, names = front ++ name :: back ∧ ∃ last,
          front.foldlM step place = .ok last ∧ last.element.child? name = none
            ∧ e = .notFound (['/'].intercalate (place.walked ++ front ++ [name])) := by
  intro names
  induction names with
  | nil =>
      intro place
      constructor
      · intro h
        cases h
      · rintro ⟨front, name, back, h, -⟩
        simp at h
  | cons first names ih =>
      intro place
      rw [List.foldlM_cons]
      cases hstep : place.step first with
      | error e' =>
          obtain ⟨hnone, rfl⟩ := step_eq_error_iff.mp hstep
          constructor
          · intro h
            obtain rfl := Except.error.inj h
            exact ⟨[], first, names, rfl, place, rfl, hnone, by rw [List.append_nil]⟩
          · rintro ⟨front, name, back, hnames, last, hfront, hlast, rfl⟩
            cases front with
            | nil =>
                obtain ⟨rfl, rfl⟩ := List.cons.inj hnames
                rw [List.append_nil]
                rfl
            | cons d front =>
                -- the walk would have gone past the step that fails
                obtain ⟨rfl, rfl⟩ := List.cons.inj hnames
                rw [List.foldlM_cons, hstep] at hfront
                cases hfront
      | ok next =>
          obtain ⟨c, hc, rfl⟩ := step_eq_ok_iff.mp hstep
          show names.foldlM step _ = .error e ↔ _
          rw [ih]
          constructor
          · rintro ⟨front, name, back, rfl, last, hfront, hlast, rfl⟩
            refine ⟨first :: front, name, back, rfl, last, ?_, hlast, by simp⟩
            rw [List.foldlM_cons, hstep]
            exact hfront
          · rintro ⟨front, name, back, hnames, last, hfront, hlast, rfl⟩
            cases front with
            | nil =>
                obtain ⟨rfl, rfl⟩ := List.cons.inj hnames
                obtain rfl : place = last := Except.ok.inj hfront
                rw [hc] at hlast
                cases hlast
            | cons d front =>
                obtain ⟨rfl, rfl⟩ := List.cons.inj hnames
                rw [List.foldlM_cons, hstep] at hfront
                exact ⟨front, name, back, rfl, last, hfront, hlast, by simp⟩

/-- **Where a walk fails.**  It goes along the segments up to the first one without a child, and
reports the names walked before, these segments and the missing one. -/
theorem navigate_eq_error_iff {e : DocumentError} : place.navigate path = .error e
    ↔ ∃ front name back, Text.steps '/' path = front ++ name :: back ∧ ∃ last,
        front.foldlM step place = .ok last ∧ last.element.child? name = none
          ∧ e = .notFound (['/'].intercalate (place.walked ++ front ++ [name])) :=
  foldlM_eq_error_iff _ place

/-! ## §2. Paths one behind the other. -/

/-- A walk along two paths is a walk along the second one from the end of the first. -/
theorem navigate_slash (place : Place) (p q : Text) :
    place.navigate (p ++ '/' :: q) = (place.navigate p >>= fun reached => reached.navigate q) := by
  show (Text.steps '/' (p ++ '/' :: q)).foldlM step place = _
  rw [Text.steps_append, List.foldlM_append]
  rfl

/-- **WALKS ONE AFTER THE OTHER.**  A path with a slash and another path behind it leads to the same
place as the second path from the end of the first, and so do any further paths from there.  When it
fails, the report is the same: the names walked before, and segments of both paths up to the one
without a child. -/
theorem navigate_append (place : Place) (p q : Text) :
    place.navigate (p ++ '/' :: q) = (place.navigate p >>= fun reached => reached.navigate q)
      ∧ (∀ further : List Text,
          (place.navigate (p ++ '/' :: q) >>= fun reached => further.foldlM navigate reached)
            = place.navigate p >>= fun reached => reached.navigate q >>= fun reached =>
                further.foldlM navigate reached)
      ∧ ∀ e, place.navigate (p ++ '/' :: q) = .error e →
          ∃ names, names ≠ [] ∧ names <+: Text.steps '/' p ++ Text.steps '/' q
            ∧ e = .notFound (['/'].intercalate (place.walked ++ names)) := by
  refine ⟨navigate_slash place p q, ?_, ?_⟩
  · intro further
    rw [navigate_slash, bind_assoc]
  · intro e h
    obtain ⟨front, name, back, hsteps, -, -, -, rfl⟩ := navigate_eq_error_iff.mp h
    refine ⟨front ++ [name], by simp, ⟨back, ?_⟩, by rw [List.append_assoc]⟩
    rw [← Text.steps_append, hsteps]
    simp

/-- Blank segments and slashes at the ends lead nowhere, and a missing child is reported without
them. -/
theorem navigate_append_missing :
    (start ⟨"R".toList, none, [], [], [.bare "A".toList none], none⟩).navigate "/A// /B/".toList
      = .error (.notFound "R/A/B".toList) := by
  have hparts := (navigate_append
    (start ⟨"R".toList, none, [], [], [.bare "A".toList none], none⟩) "/A".toList
    "/ /B/".toList).1
  exact hparts.trans rfl

end Crosswalk.Path.Place
