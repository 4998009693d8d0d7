/-
  Crosswalk.Path.Assign
  ──────────────────────────────────────
  **WRITING A TEXT AT A PATH.**

  `assign` walks along names and makes the children that are missing.  A name
  that no element can have stops it; the children made before it stay, so the
  result is always a tree, and with it possibly an error.

  `set` takes the names from a path in either notation: marks are dropped,
  the dots behind a `source.` become slashes, blank segments do not count,
  and neither does a leading name of the root when more segments follow.
-/
import Crosswalk.Path.Field

namespace Crosswalk.Path

open Markup

/-- Gives a text to the element at the names below `e`, making what is missing. -/
def assign (value : Text) (e : Element) : List Text → Element × Option DocumentError
  | [] => (e.setText value, none)
  | name :: rest =>
    match e.childIndex? name with
    | some i =>
      let (c, error) := assign value e.children[i] rest
      ({ e with children := e.children.set i c }, error)
    | none =>
      if isName name then
        let (c, error) := assign value (e.offspring name) rest
        (e.addChild c, error)
      else (e, some (.invalidName name))

/-- A path with slashes between its segments and without marks. -/
def slashed (path : Text) : Text :=
  let path := Text.dropLead targetMark path
  match Text.after? sourceMark path with
  | some dotted => dotted.map (fun c => if c = '.' then '/' else c)
  | none => path

/-- The names below a root of the given name that a path leads along. -/
def namesBelow (root path : Text) : List Text :=
  match Text.steps '/' (slashed path) with
  | first :: second :: rest => if first = root then second :: rest else first :: second :: rest
  | segments => segments

/-- Gives a text to the element at a path.  Nothing happens without a path, without a text, and at
a path without segments. -/
def set (root : Element) : Option Text → Option Text → Element × Option DocumentError
  | some path, some value =>
    match namesBelow root.name path with
    | [] => (root, none)
    | names => assign value root names
  | _, _ => (root, none)

end Crosswalk.Path
