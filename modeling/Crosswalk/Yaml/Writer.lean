/-
  Crosswalk.Yaml.Writer
  ──────────────────────────────────────
  **WRITING YAML.**

  Texts, sequences and mappings are written in the block style.  A text gets
  the plainest style in which it reads back as that text:

    • literal when it holds a newline,
    • plain when it means a text and holds nothing that plain scalars cannot,
    • between single quotes when it would mean something else,
    • between double quotes, with escapes, when nothing else will do.
-/
import Crosswalk.Yaml.Mark
import Crosswalk.Yaml.Scalar

namespace Crosswalk.Yaml

/-! ## §1. What a text holds. -/

/-- A character that can be written as it is. -/
def isPrintable (c : Char) : Bool :=
  let n := c.toNat
  n == 0x0A || (0x20 ≤ n && n ≤ 0x7E) || (0xA0 ≤ n && n ≤ 0xD7FF)
    || (0xE000 ≤ n && n ≤ 0xFFFD && n != 0xFEFF) || 0x10000 ≤ n

/-- Two neighbours in a text, of which the first and the second are of the given kinds. -/
def hasPair (first second : Char → Bool) : Text → Bool
  | a :: b :: rest => (first a && second b) || hasPair first second (b :: rest)
  | _ => false

/-- A space. -/
def isSpace (c : Char) : Bool :=
  c == ' '

/-- A text begins with a sign that plain scalars cannot begin with. -/
def beginsAsSign : Text → Bool
  | [] => false
  | c :: rest =>
    "#,[]\x7b\x7d&*!|>'\"%@`".toList.contains c
      || ("?:-".toList.contains c && atGap rest)
      || "---".toList.isPrefixOf (c :: rest) || "...".toList.isPrefixOf (c :: rest)

/-- Behind its first character a text holds a colon before a gap, or the sign of a comment behind
one. -/
def holdsSign : Text → Bool
  | a :: b :: rest =>
    (b == ':' && atGap rest) || (b == '#' && (isBlank a || isBreak a)) || holdsSign (b :: rest)
  | _ => false

/-- A character at one end of the text is of a kind. -/
def atEnds (kind : Char → Bool) (s : Text) : Bool :=
  s.head?.any kind || s.getLast?.any kind

/-! ## §2. Styles. -/

/-- How a text is written. -/
inductive Style
  | plain
  | singleQuoted
  | doubleQuoted
  | literal
  deriving DecidableEq, Repr

/-- No style but the one with escapes can hold the text. -/
def needsEscapes (s : Text) : Bool :=
  !s.all isPrintable || hasPair isSpace isBreak s

/-- A plain scalar can hold the text. -/
def allowsPlain (s : Text) : Bool :=
  !(needsEscapes s || atEnds isSpace s || s.any isBreak || beginsAsSign s || holdsSign s)

/-- A scalar between single quotes can hold the text. -/
def allowsSingle (s : Text) : Bool :=
  !(needsEscapes s || hasPair isBreak isSpace s)

/-- A literal scalar can hold the text. -/
def allowsLiteral (s : Text) : Bool :=
  !(needsEscapes s || s.getLast?.any isSpace)

/-- The style of a text. -/
def styleOf (s : Text) : Style :=
  if '\n' ∈ s then (if allowsLiteral s then .literal else .doubleQuoted)
  else if meaning s == .text && !isPaddedNumber s && allowsPlain s then .plain
  else if allowsSingle s then .singleQuoted
  else .doubleQuoted

/-! ## §3. Scalars. -/

/-- The beginning of a line at a column. -/
def indentation (n : Nat) : Text :=
  List.replicate n ' '

/-- A text between single quotes; lines behind a break begin at a column. -/
def singleQuotedFrom (n : Nat) : (afterBreak : Bool) → Text → Text
  | afterBreak, [] => (if afterBreak then indentation n else []) ++ ['\'']
  | afterBreak, c :: rest =>
    if isBreak c then c :: singleQuotedFrom n true rest
    else
      (if afterBreak then indentation n else []) ++ (if c = '\'' then "''".toList else [c])
        ++ singleQuotedFrom n false rest

/-- Hexadecimal digits in capitals, of a width. -/
def hexDigits (width n : Nat) : Text :=
  Text.padZero width ((Nat.toDigits 16 n).map Char.toUpper)

/-- The letter of an escape, when a character has one. -/
def escapeLetter? (n : Nat) : Option Char :=
  match n with
  | 0 => some '0'
  | 7 => some 'a'
  | 8 => some 'b'
  | 9 => some 't'
  | 10 => some 'n'
  | 11 => some 'v'
  | 12 => some 'f'
  | 13 => some 'r'
  | 0x1B => some 'e'
  | 0x22 => some '"'
  | 0x5C => some '\\'
  | 0x85 => some 'N'
  | 0xA0 => some '_'
  | 0x2028 => some 'L'
  | 0x2029 => some 'P'
  | _ => none

/-- A character between double quotes. -/
def doubleQuotedChar (c : Char) : Text :=
  if isPrintable c && !isBreak c && c != '"' && c != '\\' then [c]
  else
    let n := c.toNat
    '\\' :: match escapeLetter? n with
      | some l => [l]
      | none =>
        if n ≤ 0xFF then 'x' :: hexDigits 2 n
        else if n ≤ 0xFFFF then 'u' :: hexDigits 4 n
        else 'U' :: hexDigits 8 n

/-- The lines of a literal scalar, at a column. -/
def literalLines (n : Nat) : (afterBreak : Bool) → Text → Text
  | afterBreak, [] => if afterBreak then [] else ['\n']
  | afterBreak, c :: rest =>
    if isBreak c then c :: literalLines n true rest
    else (if afterBreak then indentation n else []) ++ c :: literalLines n false rest

/-- What the header of a literal scalar says: that the indentation cannot be seen, and what becomes
of the breaks at the end. -/
def literalHints (s : Text) : Text :=
  (if s.head?.any (fun c => isSpace c || isBreak c) then ['2'] else [])
    ++ match s.reverse with
      | [] => ['-']
      | [c] => if isBreak c then ['+'] else ['-']
      | c :: d :: _ => if !isBreak c then ['-'] else if isBreak d then ['+'] else []

/-- A text as a scalar with its line break; `n` is the column of its further lines. -/
def writeText (n : Nat) (s : Text) : Text :=
  match styleOf s with
  | .plain => s ++ ['\n']
  | .singleQuoted => '\'' :: singleQuotedFrom n false s ++ ['\n']
  | .doubleQuoted => '"' :: s.flatMap doubleQuotedChar ++ "\"\n".toList
  | .literal => '|' :: literalHints s ++ '\n' :: literalLines n true s

/-! ## §4. Values. -/

/-- What is written: the keys of mappings are words. -/
inductive Value
  | text (s : Text)
  | sequence (items : List Value)
  | mapping (entries : List (String × Value))
  deriving Repr

mutual

/-- A value behind a dash, whose lines begin at a column. -/
def Value.writeItem (n : Nat) : Value → Text
  | text s => writeText n s
  | sequence [] => "[]\n".toList
  | sequence (v :: rest) => Value.writeItems n (v :: rest)
  | mapping [] => "\x7b\x7d\n".toList
  | mapping (e :: rest) => Value.writeEntries n (e :: rest)

/-- A value behind a key at a column.  Sequences stand at the column of the key. -/
def Value.writeBehindKey (n : Nat) : Value → Text
  | text s => ' ' :: writeText (n + 2) s
  | sequence [] => " []\n".toList
  | sequence (v :: rest) => '\n' :: indentation n ++ Value.writeItems n (v :: rest)
  | mapping [] => " \x7b\x7d\n".toList
  | mapping (e :: rest) => '\n' :: indentation (n + 2) ++ Value.writeEntries (n + 2) (e :: rest)

/-- Items at a column, of which the first one is reached. -/
def Value.writeItems (n : Nat) : List Value → Text
  | [] => []
  | [v] => "- ".toList ++ v.writeItem (n + 2)
  | v :: w :: rest =>
    "- ".toList ++ v.writeItem (n + 2) ++ indentation n ++ Value.writeItems n (w :: rest)

/-- Entries at a column, of which the first one is reached. -/
def Value.writeEntries (n : Nat) : List (String × Value) → Text
  | [] => []
  | [(k, v)] => k.toList ++ ':' :: v.writeBehindKey n
  | (k, v) :: e :: rest =>
    k.toList ++ ':' :: v.writeBehindKey n ++ indentation n ++ Value.writeEntries n (e :: rest)

end

/-- The text of a value. -/
def Value.write (v : Value) : Text :=
  v.writeItem 0

end Crosswalk.Yaml
