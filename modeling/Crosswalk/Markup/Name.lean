/-
  Crosswalk.Markup.Name
  ──────────────────────────────────────
  **NAMES OF ELEMENTS AND PREFIXES.**

  A name starts with a letter or an underscore and goes on with letters,
  digits, `_`, `-` and `.`; it holds no colon.  A qualified name is a name
  with a prefix and a colon before it: `splitQualified` cuts at the first
  colon, `localPart` keeps what follows the last one.
-/
import Crosswalk.Text.Letter

namespace Crosswalk.Markup

/-- A character that may follow the first one of a name. -/
def isNameChar (c : Char) : Bool :=
  Text.isLetterOrDigit c || c == '_' || c == '-' || c == '.'

/-- The text is a name. -/
def isName : Text → Bool
  | [] => false
  | c :: cs => (Text.isLetter c || c == '_') && cs.all isNameChar

/-- A name with its prefix before it; the empty prefix is left out. -/
def qualify (pre name : Text) : Text :=
  if pre.isEmpty then name else pre ++ ':' :: name

/-- The prefix before the first colon, empty without one, and the rest of the name. -/
def splitQualified (s : Text) : Text × Text :=
  match s.span (· != ':') with
  | (pre, _ :: name) => (pre, name)
  | (name, []) => ([], name)

/-- The part of a name after its last colon. -/
def localPart (s : Text) : Text :=
  (s.reverse.takeWhile (· != ':')).reverse

end Crosswalk.Markup
