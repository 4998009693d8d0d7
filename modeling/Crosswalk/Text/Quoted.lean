/-
  Crosswalk.Text.Quoted
  ──────────────────────────────────────
  **QUOTED FILE PATHS IN MESSAGES.**

  A path in a message stands between double quotes.  Quotes, backslashes and
  the usual control characters are written with a backslash, other control
  characters by their number in braces.
-/
import Crosswalk.Text.Basic

namespace Crosswalk.Text

/-- A character that is written by its number: the controls and the invisible marks. -/
def isHidden (c : Char) : Bool :=
  c.toNat < 0x20 || (0x7F ≤ c.toNat && c.toNat < 0xA0) || c.toNat == 0xAD
    || (0x200B ≤ c.toNat && c.toNat ≤ 0x200F) || (0x2028 ≤ c.toNat && c.toNat ≤ 0x202E)
    || (0x2060 ≤ c.toNat && c.toNat ≤ 0x206F) || c.toNat == 0xFEFF
    || (0xE000 ≤ c.toNat && c.toNat ≤ 0xF8FF) || (0xFFF0 ≤ c.toNat && c.toNat ≤ 0xFFFB)
    || 0xE0000 ≤ c.toNat || (isBlank c && c != ' ')

/-- One character between quotes. -/
def quotedChar (c : Char) : Text :=
  if c = '"' ∨ c = '\\' then ['\\', c]
  else if c = '\t' then ['\\', 't']
  else if c = '\r' then ['\\', 'r']
  else if c = '\n' then ['\\', 'n']
  else if c.toNat = 0 then ['\\', '0']
  else if isHidden c then "\\u\x7b".toList ++ Nat.toDigits 16 c.toNat ++ "\x7d".toList
  else [c]

/-- A text between double quotes. -/
def quoted (s : Text) : Text :=
  '"' :: s.flatMap quotedChar ++ ['"']

end Crosswalk.Text
