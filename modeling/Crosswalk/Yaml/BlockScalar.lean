/-
  Crosswalk.Yaml.BlockScalar
  ──────────────────────────────────────
  **LITERAL AND FOLDED SCALARS.**

  A block scalar begins with a header: `|` or `>`, and in either order a sign
  for the breaks at its end and a digit for its indentation.  Its lines
  follow.  Without a digit the first line that is not blank decides how deep
  they are indented.  A literal scalar keeps its breaks; in a folded one a
  break between two lines that begin with a word becomes a space.
-/
import Crosswalk.Yaml.QuotedScalar

namespace Crosswalk.Yaml

/-! ## §1. Headers. -/

/-- What becomes of the breaks at the end. -/
inductive Chomping
  | strip
  | clip
  | keep
  deriving DecidableEq, Repr

/-- The header of a block scalar. -/
structure BlockHeader where
  chomping : Chomping
  /-- The indentation, or zero when the lines decide. -/
  increment : Nat
  deriving DecidableEq, Repr

/-- The sign for the breaks at the end. -/
def chompingOf? (c : Char) : Option Chomping :=
  if c = '+' then some .keep else if c = '-' then some .strip else none

/-- Reads what a header holds behind its indicator; gives the number of characters too, and
`none` for an indentation of zero behind so many characters. -/
def readHeader : Text → Except Nat (BlockHeader × Nat)
  | a :: b :: _ =>
    match chompingOf? a, chompingOf? b with
    | some ch, _ =>
      if b = '0' then .error 1
      else if b.isDigit then .ok (⟨ch, b.toNat - 48⟩, 2) else .ok (⟨ch, 0⟩, 1)
    | none, some ch =>
      if a = '0' then .error 0
      else if a.isDigit then .ok (⟨ch, a.toNat - 48⟩, 2) else .ok (⟨.clip, 0⟩, 0)
    | none, none =>
      if a = '0' then .error 0
      else if a.isDigit then .ok (⟨.clip, a.toNat - 48⟩, 1) else .ok (⟨.clip, 0⟩, 0)
  | [a] =>
    match chompingOf? a with
    | some ch => .ok (⟨ch, 0⟩, 1)
    | none =>
      if a = '0' then .error 0
      else if a.isDigit then .ok (⟨.clip, a.toNat - 48⟩, 1) else .ok (⟨.clip, 0⟩, 0)
  | [] => .ok (⟨.clip, 0⟩, 0)

/-! ## §2. Lines. -/

/-- A block scalar while its lines are read. -/
structure BlockLines where
  folded : Bool
  /-- The column of the lines, once it is known. -/
  indent : Option Nat
  /-- The deepest column reached by spaces before it was known. -/
  deepest : Nat
  /-- The lines so far. -/
  value : Text
  /-- The break behind the last line. -/
  lastBreak : Text
  /-- The breaks behind that one. -/
  breaks : Text
  /-- The last line began with a blank. -/
  blankLine : Bool
  deriving Repr

namespace BlockLines

/-- Adds the breaks before a line that begins with the given character. -/
def startLine (b : BlockLines) (c : Char) : BlockLines :=
  let joint :=
    if b.folded ∧ b.lastBreak = ['\n'] ∧ !b.blankLine ∧ !isBlank c then
      (if b.breaks.isEmpty then [' '] else [])
    else b.lastBreak
  { b with
    value := b.value ++ joint ++ b.breaks
    lastBreak := []
    breaks := []
    blankLine := isBlank c }

/-- The column of the lines: the given one, or as deep as reached, but `least` and one at least. -/
def settle (b : BlockLines) (least : Nat) : Nat :=
  b.indent.getD (max b.deepest (max least 1))

/-- The text of the scalar. -/
def finish (b : BlockLines) : Chomping → Text
  | .strip => b.value
  | .clip => b.value ++ b.lastBreak
  | .keep => b.value ++ b.lastBreak ++ b.breaks

end BlockLines

/-- Reads the lines of a block scalar that starts at `start`.  `inLine` says that the reader is
behind the indentation of a line; `least` is the column that its lines must reach when none is
given. -/
def readLines (start : Mark) (least : Nat) (chomping : Chomping) :
    Bool → BlockLines → Mark → Text → Except Fault ReadScalar
  | _, b, m, [] => .ok ⟨b.finish chomping, m, []⟩
  | true, b, m, c :: rest =>
    if isBreak c then readLines start least chomping false { b with lastBreak := [c] } m.newLine rest
    else readLines start least chomping true { b with value := b.value ++ [c] } m.next rest
  | false, b, m, c :: rest =>
    let within := b.indent.all (m.column < ·)
    if within && c = ' ' then readLines start least chomping false b m.next rest
    else
      let b := { b with deepest := max b.deepest m.column }
      if within && c = '\t' then .error ⟨.tabInIndentation, m, some (.blockScalar, start)⟩
      else if isBreak c then
        readLines start least chomping false { b with breaks := b.breaks ++ [c] } m.newLine rest
      else
        let column := b.settle least
        let b := { b with indent := some column }
        if m.column = column then
          let b := b.startLine c
          readLines start least chomping true { b with value := b.value ++ [c] } m.next rest
        else .ok ⟨b.finish chomping, m, c :: rest⟩

/-! ## §3. Whole scalars. -/

/-- The rest of a line that may hold a comment, up to the break. -/
def afterComment (m : Mark) (s : Text) : Mark × Text :=
  let afterBlanks := s.dropWhile isBlank
  let m := m.forward (s.length - afterBlanks.length)
  match afterBlanks with
  | '#' :: _ =>
    let rest := afterBlanks.dropWhile (fun c => !isBreak c)
    (m.forward (afterBlanks.length - rest.length), rest)
  | _ => (m, afterBlanks)

/-- Reads a block scalar behind its indicator.  `start` is the place of the indicator, `indent` the
column of the block around it, minus one for none. -/
def readBlock (start : Mark) (folded : Bool) (indent : Int) (m : Mark) (s : Text) :
    Except Fault ReadScalar :=
  match readHeader s with
  | .error n => .error ⟨.zeroIndentation, m.forward n, some (.blockScalar, start)⟩
  | .ok (header, n) =>
    let (m, rest) := afterComment (m.forward n) (s.drop n)
    let given : Option Nat :=
      if header.increment = 0 then none else some ((max indent 0).toNat + header.increment)
    let lines : BlockLines := ⟨folded, given, 0, [], [], [], false⟩
    let least := (indent + 1).toNat
    match rest with
    | [] => readLines start least header.chomping false lines m []
    | c :: rest =>
      if isBreak c then readLines start least header.chomping false lines m.newLine rest
      else .error ⟨.noLineEnd, m, some (.blockScalar, start)⟩

end Crosswalk.Yaml
