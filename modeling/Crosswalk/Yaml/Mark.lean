/-
  Crosswalk.Yaml.Mark
  ──────────────────────────────────────
  **PLACES IN A YAML TEXT.**

  A mark is a line and a column, both from zero.  Before a text is read its
  line breaks are made uniform (`uniformBreaks`), so that afterwards a break
  is one character: a newline, or one of the two Unicode separators, which
  keep their identity.
-/
import Crosswalk.Text.Position

namespace Crosswalk.Yaml

/-! ## §1. Marks. -/

/-- A place in a text. -/
structure Mark where
  line : Nat
  column : Nat
  deriving DecidableEq, Repr

namespace Mark

/-- The beginning of a text. -/
def zero : Mark := ⟨0, 0⟩

/-- The place so many characters further on the line. -/
def forward (m : Mark) (n : Nat) : Mark :=
  ⟨m.line, m.column + n⟩

/-- The place behind one more character of the line. -/
def next (m : Mark) : Mark :=
  m.forward 1

/-- The beginning of the next line. -/
def newLine (m : Mark) : Mark :=
  ⟨m.line + 1, 0⟩

/-- Line and column from one, as they are reported. -/
def display (m : Mark) : Text :=
  "line ".toList ++ Text.ofNat (m.line + 1) ++ " column ".toList ++ Text.ofNat (m.column + 1)

/-- The place as part of a message; the beginning of the text is not mentioned. -/
def located (m : Mark) : Text :=
  if m = zero then [] else " at ".toList ++ m.display

end Mark

/-! ## §2. Characters. -/

/-- A character that ends a line. -/
def isBreak (c : Char) : Bool :=
  c == '\n' || c.toNat == 0x2028 || c.toNat == 0x2029

/-- A space or a tab. -/
def isBlank (c : Char) : Bool :=
  c == ' ' || c == '\t'

/-- A character of names of anchors, directives and tag handles. -/
def isWordChar (c : Char) : Bool :=
  c.isAlphanum || c == '_' || c == '-'

/-- The brackets, braces and commas of the flow style. -/
def isFlowSign (c : Char) : Bool :=
  c == ',' || c == '[' || c == ']' || c == '\x7b' || c == '\x7d'

/-- A break, a blank or the end of the text is ahead. -/
def atGap : Text → Bool
  | [] => true
  | c :: _ => isBlank c || isBreak c

/-- A line of three dashes, or with `sign` of three dots, is ahead. -/
def atDocumentSign (sign : Char) : Text → Bool
  | a :: b :: c :: rest => a == sign && b == sign && c == sign && atGap rest
  | _ => false

/-- The sign that starts or ends a document is ahead, at the beginning of a line. -/
def atDocumentEdge (m : Mark) (s : Text) : Bool :=
  m.column == 0 && (atDocumentSign '-' s || atDocumentSign '.' s)

/-! ## §3. Whole texts. -/

/-- The characters that a text may hold. -/
def isAllowed (c : Char) : Bool :=
  let n := c.toNat
  n == 0x09 || n == 0x0A || n == 0x0D || (0x20 ≤ n && n ≤ 0x7E) || n == 0x85
    || (0xA0 ≤ n && n ≤ 0xD7FF) || (0xE000 ≤ n && n ≤ 0xFFFD) || 0x10000 ≤ n

/-- The byte offset of the first character that may not stand in the text. -/
def badOffset? (s : Text) : Option Nat :=
  match s.dropWhile isAllowed with
  | [] => none
  | rest => some (Text.offsetOf s rest)

/-- The text with a newline for each of the breaks of other systems. -/
def uniformBreaks : Text → Text
  | [] => []
  | '\r' :: '\n' :: rest => '\n' :: uniformBreaks rest
  | c :: rest => (if c = '\r' ∨ c.toNat = 0x85 then '\n' else c) :: uniformBreaks rest

end Crosswalk.Yaml
