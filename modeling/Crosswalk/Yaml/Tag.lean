/-
  Crosswalk.Yaml.Tag
  ──────────────────────────────────────
  **TAGS AND DIRECTIVES.**

  A tag is a handle and a suffix.  Directives stand before a document: one
  states the version of the language, others give handles a meaning.  Their
  texts are URIs, in which octets may be escaped by a percent sign.
-/
import Crosswalk.Yaml.BlockScalar

namespace Crosswalk.Yaml

/-! ## §1. URIs. -/

/-- A character of a URI; `wide` ones may hold signs of the flow style too. -/
def isUriChar (wide : Bool) (c : Char) : Bool :=
  isWordChar c || ";/?:@&=+$.!~*'()".toList.contains c || (wide && ",[]".toList.contains c)

/-- The number of octets behind the first one of a character, and the bits that one gives. -/
def octetLead? (n : Nat) : Option (Nat × Nat) :=
  if n < 0x80 then some (0, n)
  else if n < 0xC0 then none
  else if n < 0xE0 then some (1, n - 0xC0)
  else if n < 0xF0 then some (2, n - 0xE0)
  else if n < 0xF8 then some (3, n - 0xF0)
  else none

/-- The octet that is escaped at the front of a text, without its percent sign. -/
def octet? : Text → Option Nat
  | a :: b :: _ => do
    let high ← Text.digit? 16 a
    let low ← Text.digit? 16 b
    return high * 16 + low
  | _ => none

/-- Reads a URI.  Of an escaped character so many octets are `left`, and the others make up
`value`.  Faults are reported in the given context. -/
def readUri (wide : Bool) (context : Context × Mark) :
    Nat → Nat → Mark → Text → Except Fault ReadScalar
  | left, _, m, [] => if left = 0 then .ok ⟨[], m, []⟩ else .error ⟨.noOctet, m, some context⟩
  | left, value, m, c :: rest =>
    if c = '%' then
      match octet? rest with
      | none => .error ⟨.noOctet, m, some context⟩
      | some n =>
        match rest with
        | _ :: _ :: more =>
          if left = 0 then
            match octetLead? n with
            | none => .error ⟨.badFirstOctet, m, some context⟩
            | some (0, n) => (readUri wide context 0 0 (m.forward 3) more).map (.after [Char.ofNat n])
            | some (k, bits) => readUri wide context k bits (m.forward 3) more
          else if n < 0x80 ∨ 0xC0 ≤ n then .error ⟨.badNextOctet, m, some context⟩
          else
            let value := value * 64 + (n - 0x80)
            if left = 1 then
              (readUri wide context 0 0 (m.forward 3) more).map (.after [Char.ofNat value])
            else readUri wide context (left - 1) value (m.forward 3) more
        | _ => .error ⟨.noOctet, m, some context⟩
    else if left ≠ 0 then .error ⟨.noOctet, m, some context⟩
    else if isUriChar wide c then (readUri wide context 0 0 m.next rest).map (.after [c])
    else .ok ⟨[], m, c :: rest⟩

/-- Reads a URI of one character or more. -/
def readNonemptyUri (wide : Bool) (context : Context × Mark) (m : Mark) (s : Text) :
    Except Fault ReadScalar :=
  match readUri wide context 0 0 m s with
  | .error f => .error f
  | .ok r => if r.mark = m then .error ⟨.noTagUri, r.mark, some context⟩ else .ok r

/-! ## §2. Tags. -/

/-- A tag as it is written. -/
structure Tag where
  /-- The handle; empty when the suffix is the whole tag. -/
  handle : Text
  suffix : Text
  deriving DecidableEq, Repr

/-- The text that begins with an exclamation mark and goes on with a name, and with a second mark
when one follows. -/
def readHandle (s : Text) : Text × Text :=
  match s with
  | sign :: rest =>
    let word := rest.takeWhile isWordChar
    match rest.dropWhile isWordChar with
    | '!' :: more => (sign :: word ++ ['!'], more)
    | more => (sign :: word, more)
  | [] => ([], [])

/-- The text is a handle with two exclamation marks. -/
def isClosedHandle (s : Text) : Bool :=
  1 < s.length && s.getLast? == some '!'

/-- Reads a tag behind `!<`. -/
def readVerbatimTag (start m : Mark) (s : Text) : Except Fault (Tag × Mark × Text) :=
  match readNonemptyUri true (.tagText, start) m s with
  | .error f => .error f
  | .ok ⟨suffix, m, '>' :: rest⟩ => .ok (⟨[], suffix⟩, m.next, rest)
  | .ok ⟨_, m, _⟩ => .error ⟨.noTagClose, m, some (.tag, start)⟩

/-- Reads a tag that begins with a handle. -/
def readShortTag (start : Mark) (s : Text) : Except Fault (Tag × Mark × Text) :=
  let (handle, rest) := readHandle s
  let m := start.forward handle.length
  if isClosedHandle handle then
    (readNonemptyUri false (.tagText, start) m rest).map
      (fun r => (⟨handle, r.value⟩, r.mark, r.rest))
  else
    (readUri false (.tagText, start) 0 0 m rest).map (fun r =>
      let suffix := handle.drop 1 ++ r.value
      (if suffix.isEmpty then ⟨[], ['!']⟩ else ⟨['!'], suffix⟩, r.mark, r.rest))

/-- Reads a tag.  White space must follow, or in the flow style a comma. -/
def readTag (inFlow : Bool) (start : Mark) (s : Text) : Except Fault (Tag × Mark × Text) :=
  let result := match s with
    | '!' :: '<' :: rest => readVerbatimTag start (start.forward 2) rest
    | _ => readShortTag start s
  match result with
  | .error f => .error f
  | .ok (tag, m, rest) =>
    if atGap rest || (inFlow && rest.head? == some ',') then .ok (tag, m, rest)
    else .error ⟨.noSpaceAfterTag, m, some (.tag, start)⟩

/-! ## §3. Directives. -/

/-- A directive. -/
inductive Directive
  | version (major minor : Nat)
  | handle (handle uri : Text)
  deriving DecidableEq, Repr

/-- The length that a number of a version may have. -/
def versionDigits : Nat := 9

/-- Reads a number of a version. -/
def readVersionNumber (start m : Mark) (s : Text) : Except Fault (Nat × Mark × Text) :=
  let digits := s.takeWhile Char.isDigit
  if digits.isEmpty then .error ⟨.noVersion, m, some (.versionDirective, start)⟩
  else if versionDigits < digits.length then
    .error ⟨.longVersion, m.forward versionDigits, some (.versionDirective, start)⟩
  else
    .ok ((Text.natural? 10 digits).getD 0, m.forward digits.length, s.dropWhile Char.isDigit)

/-- Goes over blanks. -/
def skipBlanks (m : Mark) (s : Text) : Mark × Text :=
  (m.forward (s.takeWhile isBlank).length, s.dropWhile isBlank)

/-- Reads what a version directive says behind its name. -/
def readVersion (start m : Mark) (s : Text) : Except Fault (Directive × Mark × Text) :=
  let (m, s) := skipBlanks m s
  match readVersionNumber start m s with
  | .error f => .error f
  | .ok (major, m, '.' :: rest) =>
    (readVersionNumber start m.next rest).map
      (fun (minor, m, rest) => (.version major minor, m, rest))
  | .ok (_, m, _) => .error ⟨.noVersionDot, m, some (.versionDirective, start)⟩

/-- Reads what a directive for a handle says behind its name. -/
def readHandleMeaning (start m : Mark) (s : Text) : Except Fault (Directive × Mark × Text) :=
  let (m, s) := skipBlanks m s
  if s.head? ≠ some '!' then .error ⟨.noTagSign, m, some (.tagDirectiveHandle, start)⟩
  else
    let (handle, rest) := readHandle s
    let m := m.forward handle.length
    if handle ≠ ['!'] ∧ !isClosedHandle handle then
      .error ⟨.noTagSign, m, some (.tagDirectiveHandleText, start)⟩
    else
      match rest with
      | [] => .error ⟨.noHandleSpace, m, some (.tagDirective, start)⟩
      | c :: _ =>
        if !isBlank c then .error ⟨.noHandleSpace, m, some (.tagDirective, start)⟩
        else
          let (m, rest) := skipBlanks m rest
          match readNonemptyUri true (.tagDirectiveText, start) m rest with
          | .error f => .error f
          | .ok r =>
            if atGap r.rest then .ok (.handle handle r.value, r.mark, r.rest)
            else .error ⟨.noPrefixEnd, r.mark, some (.tagDirective, start)⟩

/-- Reads a directive with its line.  The text begins with the percent sign. -/
def readDirective (start : Mark) (s : Text) : Except Fault (Directive × Mark × Mark × Text) :=
  let afterSign := s.drop 1
  let name := afterSign.takeWhile isWordChar
  let rest := afterSign.dropWhile isWordChar
  let m := start.forward (1 + name.length)
  if name.isEmpty then .error ⟨.noDirectiveName, m, some (.directive, start)⟩
  else if !atGap rest then .error ⟨.badDirectiveName, m, some (.directive, start)⟩
  else
    let result :=
      if name = "YAML".toList then readVersion start m rest
      else if name = "TAG".toList then readHandleMeaning start m rest
      else .error ⟨.unknownDirective, m, some (.directive, start)⟩
    match result with
    | .error f => .error f
    | .ok (d, finish, rest) =>
      let (m, rest) := afterComment finish rest
      match rest with
      | [] => .ok (d, finish, m, [])
      | c :: rest =>
        if isBreak c then .ok (d, finish, m.newLine, rest)
        else .error ⟨.noLineEnd, m, some (.directive, start)⟩

end Crosswalk.Yaml
