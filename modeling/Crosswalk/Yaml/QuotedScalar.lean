/-
  Crosswalk.Yaml.QuotedScalar
  ──────────────────────────────────────
  **SCALARS BETWEEN QUOTES.**

  Between single quotes only a doubled quote is special.  Between double
  quotes a backslash starts an escape: for a character, for a character by
  its number, or for a break that does not count.

  `readQuoted` goes over the text character by character; its state says
  whether it is in a word, in a gap or among the digits of a number.
-/
import Crosswalk.Yaml.Gap

namespace Crosswalk.Yaml

/-! ## §1. Escapes. -/

/-- The character that an escape of one letter stands for. -/
def escapedChar? (c : Char) : Option Char :=
  match c with
  | '0' => some (Char.ofNat 0)
  | 'a' => some (Char.ofNat 7)
  | 'b' => some (Char.ofNat 8)
  | 't' => some '\t'
  | '\t' => some '\t'
  | 'n' => some '\n'
  | 'v' => some (Char.ofNat 11)
  | 'f' => some (Char.ofNat 12)
  | 'r' => some '\r'
  | 'e' => some (Char.ofNat 0x1B)
  | ' ' => some ' '
  | '"' => some '"'
  | '/' => some '/'
  | '\\' => some '\\'
  | 'N' => some (Char.ofNat 0x85)
  | '_' => some (Char.ofNat 0xA0)
  | 'L' => some (Char.ofNat 0x2028)
  | 'P' => some (Char.ofNat 0x2029)
  | _ => none

/-- How many digits follow the letter of an escape by number. -/
def digitsAfter? (c : Char) : Option Nat :=
  match c with
  | 'x' => some 2
  | 'u' => some 4
  | 'U' => some 8
  | _ => none

/-- A number that belongs to a character. -/
def isCodePoint (n : Nat) : Bool :=
  n ≤ 0x10FFFF && !(0xD800 ≤ n && n ≤ 0xDFFF)

/-! ## §2. Reading. -/

/-- Where in a quoted scalar the reader is. -/
inductive QuotedState
  /-- Behind a gap, which is empty within a word. -/
  | gap (g : Gap)
  /-- Among the digits that start at a place: so many are left. -/
  | digits (start : Mark) (left value : Nat)
  deriving DecidableEq, Repr

/-- Within a word. -/
def QuotedState.word : QuotedState := .gap .none

/-- The text of a scalar, and what follows it. -/
structure ReadScalar where
  value : Text
  mark : Mark
  rest : Text
  deriving Repr

/-- Puts a text before a scalar that was read. -/
def ReadScalar.after (s : Text) (r : ReadScalar) : ReadScalar :=
  { r with value := s ++ r.value }

/-- Reads a quoted scalar behind its opening quote, whose place is `start`. -/
def readQuoted (start : Mark) (quote : Char) :
    QuotedState → Mark → Text → Except Fault ReadScalar
  | .gap _, m, [] => .error ⟨.endInQuotes, m, some (.quotedScalar, start)⟩
  | .digits first _ _, _, [] => .error ⟨.noHexDigit, first, some (.quotedText, start)⟩
  | .digits first left value, m, c :: rest =>
    match Text.digit? 16 c with
    | none => .error ⟨.noHexDigit, first, some (.quotedText, start)⟩
    | some d =>
      let value := value * 16 + d
      if 1 < left then readQuoted start quote (.digits first (left - 1) value) m.next rest
      else if isCodePoint value then
        (readQuoted start quote .word m.next rest).map (.after [Char.ofNat value])
      else .error ⟨.badCodePoint, first, some (.quotedText, start)⟩
  | .gap g, m, c :: rest =>
    if isBreak c then readQuoted start quote (.gap (g.addBreak c)) m.newLine rest
    else if isBlank c then readQuoted start quote (.gap (g.addBlank c)) m.next rest
    else if atDocumentEdge m (c :: rest) then
      .error ⟨.documentSignInQuotes, m, some (.quotedScalar, start)⟩
    else if c = quote then
      match rest with
      | '\'' :: more =>
        if quote = '\'' then
          (readQuoted start quote .word (m.forward 2) more).map (.after (g.folded ++ ['\'']))
        else .ok ⟨g.folded, m.next, '\'' :: more⟩
      | _ => .ok ⟨g.folded, m.next, rest⟩
    else if c == '\\' && quote == '"' then
      match rest with
      | [] => .error ⟨.unknownEscape, m, some (.quotedText, start)⟩
      | d :: more =>
        if isBreak d then
          (readQuoted start quote (.gap .afterEscapedBreak) m.newLine more).map (.after g.folded)
        else
          match escapedChar? d, digitsAfter? d with
          | some e, _ =>
            (readQuoted start quote .word (m.forward 2) more).map (.after (g.folded ++ [e]))
          | none, some n =>
            (readQuoted start quote (.digits (m.forward 2) n 0) (m.forward 2) more).map
              (.after g.folded)
          | none, none => .error ⟨.unknownEscape, m, some (.quotedText, start)⟩
    else (readQuoted start quote .word m.next rest).map (.after (g.folded ++ [c]))

end Crosswalk.Yaml
