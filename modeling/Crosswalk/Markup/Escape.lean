/-
  Crosswalk.Markup.Escape
  ──────────────────────────────────────
  **CHARACTER REFERENCES.**

  Writing replaces the markup characters one by one: `escapeText` the three
  of element text, `escapeValue` also the two quotes.  Reading (`unescape`)
  knows the five named references and the numbered ones.  Places in the
  causes are byte offsets in the text that is read.
-/
import Crosswalk.Text.Position

namespace Crosswalk.Markup

/-! ## §1. Writing. -/

/-- A character of element text. -/
def escapeTextChar (c : Char) : Text :=
  if c = '<' then "&lt;".toList
  else if c = '>' then "&gt;".toList
  else if c = '&' then "&amp;".toList
  else [c]

/-- A character of an attribute value. -/
def escapeValueChar (c : Char) : Text :=
  if c = '\'' then "&apos;".toList
  else if c = '"' then "&quot;".toList
  else escapeTextChar c

/-- Element text with its markup characters written as references. -/
def escapeText (s : Text) : Text :=
  s.flatMap escapeTextChar

/-- An attribute value with its markup characters and quotes written as references. -/
def escapeValue (s : Text) : Text :=
  s.flatMap escapeValueChar

/-! ## §2. Reading. -/

/-- Why a reference cannot be read. -/
inductive ReferenceFault
  /-- No semicolon follows the ampersand at `first`, or another ampersand comes before it; `last`
  is the end of the text. -/
  | unterminated (first last : Nat)
  /-- The name is none of the five. -/
  | unrecognized (first last : Nat) (name : Text)
  /-- A numbered reference with a sign. -/
  | signed
  /-- A numbered reference without digits. -/
  | noDigits
  /-- A numbered reference with something other than digits. -/
  | invalidDigit
  /-- The number exceeds 32 bits. -/
  | tooLarge
  /-- The number of no character. -/
  | notACharacter (n : Nat)
  /-- The number zero. -/
  | zero
  deriving DecidableEq, Repr

/-- The wording of a reference that cannot be read. -/
def ReferenceFault.message : ReferenceFault → Text
  | unterminated first last =>
    "Error while escaping character at range ".toList ++ Text.ofNat first ++ "..".toList
      ++ Text.ofNat last ++ ": Cannot find ';' after '&'".toList
  | unrecognized first last name =>
    "at ".toList ++ Text.ofNat first ++ "..".toList ++ Text.ofNat last
      ++ ": unrecognized entity `".toList ++ name ++ "`".toList
  | signed => number "unexpected number sign".toList
  | noDigits => number "cannot parse integer from empty string".toList
  | invalidDigit => number "invalid digit found in string".toList
  | tooLarge => number "number too large to fit in target type".toList
  | notACharacter n => number ("`".toList ++ Text.ofNat n ++ "` is not a valid codepoint".toList)
  | zero => number "0x0 character is not permitted in XML".toList
where
  number (what : Text) : Text := "invalid character reference: ".toList ++ what

/-- The character of a named reference. -/
def namedReference? (name : Text) : Option Char :=
  if name = "lt".toList then some '<'
  else if name = "gt".toList then some '>'
  else if name = "amp".toList then some '&'
  else if name = "apos".toList then some '\''
  else if name = "quot".toList then some '"'
  else none

/-- Reads digits into 32 bits; of two faults the one further left counts. -/
def readCode (base : Nat) : Nat → Text → Except ReferenceFault Nat
  | n, [] => .ok n
  | n, c :: cs =>
    match Text.digit? base c with
    | none => .error .invalidDigit
    | some d => if n * base + d < Nat.pow 2 32 then readCode base (n * base + d) cs else .error .tooLarge

/-- The character of a numbered reference, given the part after `#`. -/
def numberedReference (s : Text) : Except ReferenceFault Char := do
  let (base, digits) := match s with
    | 'x' :: hex => (16, hex)
    | _ => (10, s)
  let code ← match digits with
    | [] => throw .noDigits
    | '+' :: _ => throw .signed
    | '-' :: _ => throw .signed
    | _ => readCode base 0 digits
  if code = 0 then throw .zero
  else if h : code.isValidChar then return Char.ofNatAux code h
  else throw (.notACharacter code)

/-- The character that the reference between `&` and `;` stands for; `first` is the offset of its
name. -/
def reference (first : Nat) (name : Text) : Except ReferenceFault Char :=
  match name with
  | '#' :: number => numberedReference number
  | _ =>
    match namedReference? name with
    | some c => .ok c
    | none => .error (.unrecognized first (first + Text.byteSize name) name)

/-- Replaces the references in a text by their characters. -/
def unescape (raw : Text) : Except ReferenceFault Text :=
  go none 0 raw
where
  /-- Reads from the byte offset `pos`.  Inside a reference `opened` holds the part after `&`,
  backwards. -/
  go : Option Text → Nat → Text → Except ReferenceFault Text
    | none, _, [] => .ok []
    | none, pos, c :: cs =>
      if c = '&' then go (some []) (pos + 1) cs
      else (go none (pos + c.utf8Size) cs).map (c :: ·)
    | some seen, pos, [] => .error (.unterminated (pos - Text.byteSize seen - 1) pos)
    | some seen, pos, c :: cs =>
      if c = '&' then
        .error (.unterminated (pos - Text.byteSize seen - 1) (pos + Text.byteSize (c :: cs)))
      else if c = ';' then do
        let r ← reference (pos - Text.byteSize seen) seen.reverse
        let rest ← go none (pos + 1) cs
        return r :: rest
      else go (some (c :: seen)) (pos + c.utf8Size) cs

end Crosswalk.Markup
