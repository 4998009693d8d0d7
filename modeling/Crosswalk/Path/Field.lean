/-
  Crosswalk.Path.Field
  ──────────────────────────────────────
  **READING FIELDS OF MESSAGES.**

  Fields are named in two notations.

    • Dots walk a JSON value by keys and positions, and a tree by local names
      below its root.  A leading `source.` is a mark; a JSON value may still
      have a key `source`, which is tried last.
    • Slashes walk a tree by `child?` below its root.  A leading `target:` is
      a mark.

  A path that starts with `constant:` stands for the rest of its own text.
-/
import Crosswalk.Message.Basic
import Crosswalk.Path.Walk

namespace Crosswalk.Path

open Markup

/-! ## §1. Marks. -/

/-- What a path begins with when it stands for a text. -/
def constantMark : Text := "constant:".toList

/-- What a path into the canonical document may begin with. -/
def targetMark : Text := "target:".toList

/-- What a path into the message may begin with. -/
def sourceMark : Text := "source.".toList

/-! ## §2. Dots. -/

/-- The field of a JSON value. -/
def jsonField? (value : Json) (path : Text) : Option Text :=
  (value.lookup (path.splitOn '.')).bind Json.fieldText?

/-- Drops a leading name of the root when more segments follow and no child has that name. -/
def belowRoot (root : Element) : List Text → List Text
  | first :: second :: rest =>
    if root.matchesLocal first && (root.childLocal? first).isNone then second :: rest
    else first :: second :: rest
  | segments => segments

/-- The element below the given one along local names. -/
def descend? : Element → List Text → Option Element
  | e, [] => some e
  | e, name :: rest => (e.childLocal? name).bind (descend? · rest)

/-- The text of the element at a dot path below the root. -/
def dotField? (root : Element) (path : Text) : Option Text :=
  match belowRoot root (Text.steps '.' path) with
  | [] => none
  | segments => (descend? root segments).map Element.trimmedText

/-! ## §3. Slashes. -/

/-- The text of the element at a slash path below the root. -/
def slashField? (root : Element) (path : Text) : Option Text :=
  let path := Text.dropLead targetMark path
  if (Text.steps '/' path).isEmpty then none
  else
    match (Place.start root).navigate path with
    | .ok place => some place.element.trimmedText
    | .error _ => none

/-! ## §4. Messages. -/

/-- The field of a message. -/
def field? (message : Message) (path : Text) : Option Text :=
  match Text.after? constantMark path with
  | some literal => some literal
  | none =>
    match message, Text.after? sourceMark path with
    | .json value, some stripped => (jsonField? value stripped).or (jsonField? value path)
    | .json value, none => jsonField? value path
    | .markup root, some stripped => dotField? root stripped
    | .markup root, none => dotField? root path

end Crosswalk.Path
