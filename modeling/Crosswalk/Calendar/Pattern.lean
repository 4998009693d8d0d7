/-
  Crosswalk.Calendar.Pattern
  ──────────────────────────────────────
  **PATTERNS FOR INSTANTS.**

  In a pattern a run of one letter is a field, and the length of the run its
  width.  Text between single quotes is literal, a doubled quote is a quote,
  square brackets print nothing and every other character prints itself.

    • `parts` cuts a pattern into its parts, from the right, so that the
      parts of a concatenation are those of its halves,
    • `Part.write` prints one part at an instant,
    • `format` prints them all; the first part that cannot be printed fails.
-/
import Crosswalk.Text.Basic
import Crosswalk.Calendar.Instant

namespace Crosswalk.Calendar

/-! ## §1. Names. -/

/-- The names of the months. -/
def monthNames : List String :=
  ["January", "February", "March", "April", "May", "June", "July", "August", "September",
    "October", "November", "December"]

/-- The names of the days of the week. -/
def weekdayNames : List String :=
  ["Monday", "Tuesday", "Wednesday", "Thursday", "Friday", "Saturday", "Sunday"]

/-- The name at a place of a list. -/
def nameAt (names : List String) (i : Nat) : Text :=
  (names[i]?.getD "").toList

/-- How a name is shortened for the width of its field. -/
def abbreviate (name : Text) : Nat → Option Text
  | 3 => some (name.take 3)
  | 4 => some name
  | 5 => some (name.take 1)
  | _ => none

/-! ## §2. Parts. -/

/-- A part of a pattern. -/
inductive Part
  | literal (c : Char)
  | field (letter : Char) (width : Nat)
  /-- A square bracket, which prints nothing. -/
  | silent
  /-- A character that patterns may not hold. -/
  | reserved (c : Char)
  /-- The pattern ends inside quotes. -/
  | unterminated
  deriving DecidableEq, Repr

/-- Puts a letter before other parts; a field of the same letter grows. -/
def Part.grow (c : Char) : List Part → List Part
  | .field d width :: rest =>
    if c = d then .field d (width + 1) :: rest else .field c 1 :: .field d width :: rest
  | rest => .field c 1 :: rest

/-- The part of a character that is no letter and no quote. -/
def Part.ofSign (c : Char) : Part :=
  if c = '\x7b' ∨ c = '\x7d' ∨ c = '#' then .reserved c
  else if c = '[' ∨ c = ']' then .silent
  else .literal c

/-- The parts of a pattern, of which the front may be `inside` quotes. -/
def parts (inside : Bool) : Text → List Part
  | [] => if inside then [.unterminated] else []
  | '\'' :: '\'' :: rest => .literal '\'' :: parts inside rest
  | c :: rest =>
    if c = '\'' then parts (!inside) rest
    else if inside then .literal c :: parts inside rest
    else if c.isAlpha then Part.grow c (parts inside rest)
    else Part.ofSign c :: parts inside rest

/-! ## §3. Fields. -/

/-- Why a field cannot be printed. -/
inductive FieldFault
  | tooMany (letter : Char)
  | unsupported (letter : Char)
  deriving DecidableEq, Repr

/-- A number with leading zeros up to a width; a minus sign comes in addition. -/
def padded (width : Nat) (n : Int) : Text :=
  (if n < 0 then ['-'] else []) ++ Text.padZero width (Text.ofNat n.natAbs)

/-- A number in a field of bounded width. -/
def numberUpTo (bound width : Nat) (n : Nat) : Option Text :=
  if width ≤ bound then some (padded width n) else none

/-- The year as a field. -/
def yearField (width : Nat) (year : Int) : Text :=
  if width = 2 then padded 2 (year % 100) else padded width year

/-- The month as a field. -/
def monthField (width month : Nat) : Option Text :=
  if width ≤ 2 then some (padded width month)
  else abbreviate (nameAt monthNames (month - 1)) width

/-- A name of a day of the week as a field. -/
def weekdayField (width : Nat) (d : Date) : Option Text :=
  abbreviate (nameAt weekdayNames d.weekday) (max width 3)

/-- The era as a field. -/
def eraField (width : Nat) (year : Int) : Option Text :=
  match max width 3 with
  | 3 => some (if 0 < year then "AD".toList else "BC".toList)
  | 4 => some (if 0 < year then "Anno Domini".toList else "Before Christ".toList)
  | 5 => some (if 0 < year then ['A'] else ['B'])
  | _ => none

/-- The quarter as a field. -/
def quarterField (width month : Nat) : Option Text :=
  let quarter := (month - 1) / 3 + 1
  match width with
  | 3 => some ('Q' :: Text.ofNat quarter)
  | 4 => some (nameAt ["1st", "2nd", "3rd", "4th"] (quarter - 1) ++ " quarter".toList)
  | _ => numberUpTo 2 width quarter

/-- The zero offset as a field of the letter `Z`. -/
def offsetField (width : Nat) : Option Text :=
  match max width 3 with
  | 3 => some "+0000".toList
  | 4 => some "GMT".toList
  | 5 => some ['Z']
  | _ => none

/-- The zero offset as a field of the letter `x`. -/
def plainOffsetField (width : Nat) : Option Text :=
  match width with
  | 1 => some "+00".toList
  | 2 | 4 => some "+0000".toList
  | 3 | 5 => some "+00:00".toList
  | _ => none

/-- The name of the zone as a field. -/
def zoneField (width : Nat) : Option Text :=
  match max width 3 with
  | 3 => some "UTC".toList
  | 4 => some "Coordinated Universal Time".toList
  | _ => none

/-- A field at an instant: nothing for an unknown letter, and no text for a width that the letter
does not allow. -/
def fieldText? (t : Instant) (letter : Char) (width : Nat) : Option (Option Text) :=
  match letter with
  | 'y' | 'u' => some (yearField width t.date.year)
  | 'M' | 'L' => some (monthField width t.date.month)
  | 'd' => some (numberUpTo 2 width t.date.day)
  | 'D' => some (numberUpTo 3 width t.date.ordinal)
  | 'H' => some (numberUpTo 2 width t.hour)
  | 'k' => some (numberUpTo 2 width (if t.hour = 0 then 24 else t.hour))
  | 'h' => some (numberUpTo 2 width t.hourOfDial)
  | 'K' => some (numberUpTo 2 width (t.hour % 12))
  | 'm' => some (numberUpTo 2 width t.minute)
  | 's' => some (numberUpTo 2 width t.second)
  | 'S' => some (if width ≤ 9 then some ((padded 9 t.fraction).take width) else none)
  | 'n' => some (padded width t.fraction)
  | 'a' =>
    some (if width = 1 then some (if t.afterNoon then "PM".toList else "AM".toList) else none)
  | 'E' => some (weekdayField width t.date)
  | 'G' => some (eraField width t.date.year)
  | 'Q' | 'q' => some (quarterField width t.date.month)
  | 'Z' => some (offsetField width)
  | 'X' => some (if width ≤ 5 then some ['Z'] else none)
  | 'x' => some (plainOffsetField width)
  | 'z' => some (zoneField width)
  | _ => none

/-! ## §4. Whole patterns. -/

/-- Why a pattern cannot be printed. -/
inductive PatternFault
  | field (f : FieldFault)
  | reserved (c : Char)
  | unterminated
  deriving DecidableEq, Repr

/-- The wording of a fault of a pattern. -/
def PatternFault.message (pattern : Text) (f : PatternFault) : Text :=
  let problem := match f with
    | field (.tooMany c) => "too many pattern letters '".toList ++ [c, '\'']
    | field (.unsupported c) => "unsupported pattern letter '".toList ++ [c, '\'']
    | reserved c => "reserved character '".toList ++ [c, '\'']
    | unterminated => "unterminated quote".toList
  problem ++ " in pattern '".toList ++ pattern ++ ['\'']

/-- The text of a part. -/
def Part.write (t : Instant) : Part → Except PatternFault Text
  | literal c => .ok [c]
  | silent => .ok []
  | reserved c => .error (.reserved c)
  | unterminated => .error .unterminated
  | field letter width =>
    match fieldText? t letter width with
    | some (some s) => .ok s
    | some none => .error (.field (.tooMany letter))
    | none => .error (.field (.unsupported letter))

/-- The text of parts one after the other. -/
def writeParts (t : Instant) : List Part → Except PatternFault Text
  | [] => .ok []
  | p :: rest => do
    let first ← p.write t
    let others ← writeParts t rest
    return first ++ others

/-- An instant in the form of a pattern. -/
def format (t : Instant) (pattern : Text) : Except PatternFault Text :=
  writeParts t (parts false pattern)

end Crosswalk.Calendar
