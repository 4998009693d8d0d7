/-
  Crosswalk.Text.Basic
  ──────────────────────────────────────
  **TEXT AS A LIST OF CHARACTERS, AND ITS WHITE SPACE.**

  Every message, name, path and pattern of this library is a `Text`.  White
  space means the characters with the Unicode property `White_Space`:

    • `trim` removes it at both ends,
    • `words` cuts a text at its runs of white space,
    • `collapse` puts one space between the words.
-/

namespace Crosswalk

/-- A text is the list of its characters. -/
abbrev Text := List Char

namespace Text

/-! ## §1. White space. -/

/-- The characters of the Unicode property `White_Space`. -/
def isBlank (c : Char) : Bool :=
  (0x09 ≤ c.toNat && c.toNat ≤ 0x0D) || c.toNat == 0x20 || c.toNat == 0x85 || c.toNat == 0xA0
    || c.toNat == 0x1680 || (0x2000 ≤ c.toNat && c.toNat ≤ 0x200A) || c.toNat == 0x2028
    || c.toNat == 0x2029 || c.toNat == 0x202F || c.toNat == 0x205F || c.toNat == 0x3000

/-- A text is blank when it holds white space only; the empty text is blank. -/
def blank (s : Text) : Bool :=
  s.all isBlank

/-- The text without its leading white space. -/
def trimStart (s : Text) : Text :=
  s.dropWhile isBlank

/-- The text without its trailing white space. -/
def trimEnd (s : Text) : Text :=
  (s.reverse.dropWhile isBlank).reverse

/-- The text without the white space around it. -/
def trim (s : Text) : Text :=
  trimEnd (trimStart s)

/-- The maximal runs of characters that are not white space. -/
def words (s : Text) : List Text :=
  (s.splitOnP isBlank).filter (fun w => !w.isEmpty)

/-- The words of a text with one space between neighbours. -/
def collapse (s : Text) : Text :=
  [' '].intercalate (words s)

/-! ## §2. Letter case. -/

/-- Raises the letters `a` to `z`; every other character stays. -/
def upperAscii (s : Text) : Text :=
  s.map Char.toUpper

/-! ## §3. Pieces between separators. -/

/-- The pieces between the separators, trimmed, without the empty ones. -/
def steps (sep : Char) (s : Text) : List Text :=
  ((s.splitOn sep).map trim).filter (fun w => !w.isEmpty)

/-! ## §4. Searching. -/

/-- The text after `lead`, when the text starts with it. -/
def after? (lead s : Text) : Option Text :=
  lead.isPrefixOf? s

/-- Drops `lead` from the front of a text that starts with it. -/
def dropLead (lead s : Text) : Text :=
  (after? lead s).getD s

/-- The parts of a text before and after the first place where `part` stands. -/
def cutFirst? (part : Text) : Text → Option (Text × Text)
  | [] => (after? part []).map (([], ·))
  | c :: cs =>
    match after? part (c :: cs) with
    | some rest => some ([], rest)
    | none => (cutFirst? part cs).map (fun (before, rest) => (c :: before, rest))

/-- The parts of a text before and after the last place where `part` stands. -/
def cutLast? (part s : Text) : Option (Text × Text) :=
  (cutFirst? part.reverse s.reverse).map (fun (rest, before) => (before.reverse, rest.reverse))

/-- The text holds `part` somewhere. -/
def contains (part s : Text) : Bool :=
  (cutFirst? part s).isSome

/-! ## §5. Decimal digits. -/

/-- The value of a character as a digit in the given base, at most 36. -/
def digit? (base : Nat) (c : Char) : Option Nat :=
  let value :=
    if c.isDigit then some (c.toNat - 48)
    else if 'a' ≤ c ∧ c ≤ 'z' then some (c.toNat - 87)
    else if 'A' ≤ c ∧ c ≤ 'Z' then some (c.toNat - 55)
    else none
  value.filter (· < base)

/-- Reads a text of one or more digits in the given base. -/
def natural? (base : Nat) (s : Text) : Option Nat :=
  if s.isEmpty then none
  else s.foldlM (fun n c => (digit? base c).map (n * base + ·)) 0

/-- Reads digits after an optional plus sign, up to the bound. -/
def unsigned? (base bound : Nat) (s : Text) : Option Nat :=
  (natural? base (dropLead ['+'] s)).filter (· ≤ bound)

/-- Reads digits after an optional sign, within the words of `bits` bits. -/
def signed? (base bits : Nat) (s : Text) : Option Int :=
  match s with
  | '-' :: ds => ((natural? base ds).filter (· ≤ Nat.pow 2 (bits - 1))).map (fun n => -(n : Int))
  | _ => (unsigned? base (Nat.pow 2 (bits - 1) - 1) s).map Int.ofNat

/-- The decimal digits of a number. -/
def ofNat (n : Nat) : Text :=
  Nat.toDigits 10 n

/-- The decimal digits of a number after a minus sign when it is negative. -/
def ofInt (i : Int) : Text :=
  if i < 0 then '-' :: ofNat i.natAbs else ofNat i.natAbs

/-- Fills a text with leading zeros up to a width. -/
def padZero (width : Nat) (s : Text) : Text :=
  List.replicate (width - s.length) '0' ++ s

end Text

end Crosswalk
