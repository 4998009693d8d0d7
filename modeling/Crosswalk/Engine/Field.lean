/-
  Crosswalk.Engine.Field
  ──────────────────────────────────────
  **CARRYING OVER FIELDS ONE BY ONE.**

  A field mapping takes a value from a message, or its own fallback, applies
  its expression and hands the result to its target.  A mapping that fails
  is skipped and reported; the others are applied all the same.
-/
import Crosswalk.Path.Assign
import Crosswalk.Route.Basic
import Crosswalk.Transform.Evaluate

namespace Crosswalk.Engine

open Route (FieldMapping)

/-- Why a field mapping has no effect. -/
inductive FieldError
  | transform (f : Transform.Fault)
  | document (e : Markup.DocumentError)
  /-- In the reply of a route, a part of the path is no object. -/
  | conflict (route part path : Text)
  deriving DecidableEq, Repr

/-- The wording of an error of a field. -/
def FieldError.message : FieldError → Text
  | transform f => "Transform error: ".toList ++ f.message
  | document e => "Document error: ".toList ++ e.message
  | conflict route part path =>
    "Mapping error for route '".toList ++ route ++ "': '".toList ++ part ++ "' in '".toList ++ path
      ++ "' already holds a non-object value".toList

/-- A field mapping that was skipped. -/
structure Skipped where
  route : Text
  /-- Its place in the list of mappings. -/
  index : Nat
  mapping : FieldMapping
  error : FieldError
  deriving DecidableEq, Repr

/-- Applies field mappings in turn to what is being built.  Each gives the next state and possibly
an error; the skipped ones are listed. -/
def runFields {α : Type} (route : Text) (apply : α → FieldMapping → α × Option FieldError) :
    (index : Nat) → α → List FieldMapping → α × List Skipped
  | _, a, [] => (a, [])
  | index, a, f :: rest =>
    let (a, error) := apply a f
    let (a, skipped) := runFields route apply (index + 1) a rest
    (a, (error.map (⟨route, index, f, ·⟩)).toList ++ skipped)

/-- Gives the value to a field of a document.  A transform that failed leaves the document as it
is. -/
def setField (target : Option Text) (value : Except Transform.Fault (Option Text))
    (root : Markup.Element) : Markup.Element × Option FieldError :=
  match value with
  | .error f => (root, some (.transform f))
  | .ok v =>
    let (root, error) := Path.set root target v
    (root, error.map .document)

end Crosswalk.Engine
