/-
  Crosswalk.Engine.RootPrefix
  ──────────────────────────────────────
  **GIVING THE ROOT A PREFIX OF ITS OWN.**

  A route may ask for a prefix on the root of the written document alone.
  The change is made in the text:

    • the first default declaration of the URI becomes one of the prefix, and
      a second declaration of the prefix in the same tag is dropped,
    • the first start tag with the name of the root gets the prefix,
    • the last end tag with that name gets it.
-/
import Crosswalk.Markup.Writer

namespace Crosswalk.Engine

open Markup

/-- The text with `old` replaced by `new` where it stands first. -/
def replaceFirst (old new s : Text) : Text :=
  match Text.cutFirst? old s with
  | some (before, rest) => before ++ new ++ rest
  | none => s

/-- The text with `old` replaced by `new` where it stands last. -/
def replaceLast (old new s : Text) : Text :=
  match Text.cutLast? old s with
  | some (before, rest) => before ++ new ++ rest
  | none => s

/-- Puts the declaration of a prefix in place of the default declaration of its URI. -/
def moveDeclaration (ns : Namespace) (s : Text) : Text :=
  match Text.cutFirst? (Namespace.display ⟨[], ns.uri⟩) s with
  | some (before, rest) =>
    let (tag, others) := rest.span (· != '>')
    before ++ ns.display ++ replaceFirst (' ' :: ns.display) [] tag ++ others
  | none => s

/-- What follows a name in a start tag: the rest of the tag, and the text behind its `>`. -/
def tagRest? : Text → Option (Text × Text)
  | [] => none
  | '>' :: rest => some ([], rest)
  | c :: cs =>
    if Text.isBlank c || c == '/' then
      match (c :: cs).span (· != '>') with
      | (inner, _ :: rest) => some (inner, rest)
      | (_, []) => none
    else none

/-- Gives another name to the first start tag with a name. -/
def renameStart (old new : Text) : Text → Text
  | [] => []
  | c :: cs =>
    match (Text.after? ('<' :: old) (c :: cs)).bind tagRest? with
    | some (inner, rest) => '<' :: new ++ inner ++ '>' :: rest
    | none => c :: renameStart old new cs

/-- An end tag. -/
def endTag (name : Text) : Text :=
  "</".toList ++ name ++ ['>']

/-- Gives the root of a written document the prefix of a namespace. -/
def prefixRoot (root : Text) (ns : Namespace) (s : Text) : Text :=
  let named := qualify ns.pre root
  replaceLast (endTag root) (endTag named) (renameStart root named (moveDeclaration ns s))

end Crosswalk.Engine
