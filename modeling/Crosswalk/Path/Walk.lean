/-
  Crosswalk.Path.Walk
  ──────────────────────────────────────
  **WALKING A TREE BY A SLASH PATH.**

  A place in a tree is an element together with the names that led to it, so
  that a step without a target can be reported with the whole path.  Blank
  segments of a path do not count.
-/
import Crosswalk.Markup.Element

namespace Crosswalk.Path

open Markup

/-- An element with the names walked to reach it; the first is the name of the element where the
walk began. -/
structure Place where
  element : Element
  walked : List Text
  deriving Repr

namespace Place

/-- The place at which a walk begins. -/
def start (e : Element) : Place :=
  ⟨e, [e.qualifiedName]⟩

/-- Goes to the child of that name. -/
def step (p : Place) (name : Text) : Except DocumentError Place :=
  let walked := p.walked ++ [name]
  match p.element.child? name with
  | some c => .ok ⟨c, walked⟩
  | none => .error (.notFound (['/'].intercalate walked))

/-- Walks along a slash path. -/
def navigate (p : Place) (path : Text) : Except DocumentError Place :=
  (Text.steps '/' path).foldlM step p

end Place

end Crosswalk.Path
