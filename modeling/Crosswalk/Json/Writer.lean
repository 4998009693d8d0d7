/-
  Crosswalk.Json.Writer
  ──────────────────────────────────────
  **JSON TEXTS.**

  `write` leaves no white space, `writePretty` gives each item a line and
  indents it by two spaces per level.  In strings only quotes, backslashes
  and control characters are escaped.  A floating-point number always shows
  a point or an exponent.
-/
import Crosswalk.Json.Basic
import Crosswalk.Number.Layout

namespace Crosswalk.Json

/-! ## §1. Numbers. -/

/-- Numbers from `1e-5` to below `1e16` are written out, exponents always have a sign. -/
def layout : Number.Layout := ⟨16, 4, ['+']⟩

/-- The text of a number. -/
def Number.text : Number → Text
  | integer i => Text.ofInt i
  | float negative magnitude =>
    (if negative then ['-'] else []) ++ layout.magnitude magnitude

/-! ## §2. Strings. -/

/-- One character of a string. -/
def escapeChar (c : Char) : Text :=
  if c = '"' ∨ c = '\\' then ['\\', c]
  else if c = '\n' then "\\n".toList
  else if c = '\r' then "\\r".toList
  else if c = '\t' then "\\t".toList
  else if c.toNat = 8 then "\\b".toList
  else if c.toNat = 12 then "\\f".toList
  else if c.toNat < 32 then
    "\\u00".toList ++ [Nat.digitChar (c.toNat / 16), Nat.digitChar (c.toNat % 16)]
  else [c]

/-- A string with its quotes. -/
def writeString (s : Text) : Text :=
  '"' :: s.flatMap escapeChar ++ ['"']

/-! ## §3. Values. -/

mutual

/-- The text of a value without white space. -/
def write : Json → Text
  | null => "null".toList
  | bool true => "true".toList
  | bool false => "false".toList
  | number n => n.text
  | string s => writeString s
  | array items => '[' :: writeItems items ++ [']']
  | object members => '\x7b' :: writeMembers members ++ ['\x7d']

/-- Items with commas between them. -/
def writeItems : List Json → Text
  | [] => []
  | [v] => write v
  | v :: w :: rest => write v ++ ',' :: writeItems (w :: rest)

/-- Members with commas between them. -/
def writeMembers : List (Text × Json) → Text
  | [] => []
  | [(k, v)] => writeString k ++ ':' :: write v
  | (k, v) :: m :: rest => writeString k ++ ':' :: write v ++ ',' :: writeMembers (m :: rest)

end

/-- A new line with the indentation of a level. -/
def newLine (level : Nat) : Text :=
  '\n' :: List.replicate (2 * level) ' '

mutual

/-- The text of a value with a line per item, at a level of indentation. -/
def writeIndented (level : Nat) : Json → Text
  | array [] => "[]".toList
  | array (v :: rest) =>
    '[' :: writeItemLines (level + 1) (v :: rest) ++ newLine level ++ [']']
  | object [] => "\x7b\x7d".toList
  | object (m :: rest) =>
    '\x7b' :: writeMemberLines (level + 1) (m :: rest) ++ newLine level ++ ['\x7d']
  | null => write null
  | bool b => write (bool b)
  | number n => write (number n)
  | string s => write (string s)

/-- Items on lines of their own. -/
def writeItemLines (level : Nat) : List Json → Text
  | [] => []
  | [v] => newLine level ++ writeIndented level v
  | v :: w :: rest =>
    newLine level ++ writeIndented level v ++ ',' :: writeItemLines level (w :: rest)

/-- Members on lines of their own. -/
def writeMemberLines (level : Nat) : List (Text × Json) → Text
  | [] => []
  | [(k, v)] => newLine level ++ writeString k ++ ": ".toList ++ writeIndented level v
  | (k, v) :: m :: rest =>
    newLine level ++ writeString k ++ ": ".toList ++ writeIndented level v
      ++ ',' :: writeMemberLines level (m :: rest)

end

/-- The text of a value with a line per item. -/
def writePretty (v : Json) : Text :=
  writeIndented 0 v

/-- A value as a field: strings without quotes, nothing for null. -/
def fieldText? : Json → Option Text
  | null => none
  | string s => some s
  | v => some (write v)

end Crosswalk.Json
