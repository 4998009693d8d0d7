/-
  Crosswalk.Json.Reader
  ──────────────────────────────────────
  **READING JSON TEXTS.**

  The reader takes a value from the front of a text and gives back the rest.
  A fault records how many bytes lie behind its place, so nothing is counted
  on the way.  Most faults point at the character that was looked at
  (`faultAt`), some behind one that was taken (`faultBefore`).

  Nesting is limited: `readValue` takes the number of levels that may still
  be opened.
-/
import Crosswalk.Json.Basic
import Crosswalk.Text.Position

namespace Crosswalk.Json

/-! ## §1. Faults. -/

/-- Why a text is no JSON. -/
inductive Cause
  | endInValue
  | endInObject
  | endInArray
  | endInString
  | expectedValue
  | expectedColon
  | expectedCommaOrBrace
  | expectedCommaOrBracket
  | expectedWord
  | keyNotString
  | trailingComma
  | trailingCharacters
  | invalidNumber
  | numberOutOfRange
  | invalidEscape
  | loneSurrogate
  | endInSurrogate
  | controlCharacter
  | nestingTooDeep
  deriving DecidableEq, Repr

/-- The wording of a cause. -/
def Cause.message : Cause → Text
  | endInValue => "EOF while parsing a value".toList
  | endInObject => "EOF while parsing an object".toList
  | endInArray => "EOF while parsing a list".toList
  | endInString => "EOF while parsing a string".toList
  | expectedValue => "expected value".toList
  | expectedColon => "expected `:`".toList
  | expectedCommaOrBrace => "expected `,` or `\x7d`".toList
  | expectedCommaOrBracket => "expected `,` or `]`".toList
  | expectedWord => "expected ident".toList
  | keyNotString => "key must be a string".toList
  | trailingComma => "trailing comma".toList
  | trailingCharacters => "trailing characters".toList
  | invalidNumber => "invalid number".toList
  | numberOutOfRange => "number out of range".toList
  | invalidEscape => "invalid escape".toList
  | loneSurrogate => "lone leading surrogate in hex escape".toList
  | endInSurrogate => "unexpected end of hex escape".toList
  | controlCharacter =>
    "control character (\\u0000-\\u001F) found while parsing a string".toList
  | nestingTooDeep => "recursion limit exceeded".toList

/-- A cause and the number of bytes behind its place. -/
structure Stop where
  cause : Cause
  left : Nat
  deriving DecidableEq, Repr

/-- A fault at the character at the front of the text, or at the end. -/
def faultAt {α : Type} (cause : Cause) (s : Text) : Except Stop α :=
  .error ⟨cause, Text.byteSize s - 1⟩

/-- A fault before the text. -/
def faultBefore {α : Type} (cause : Cause) (s : Text) : Except Stop α :=
  .error ⟨cause, Text.byteSize s⟩

/-- The white space of JSON. -/
def isSpace (c : Char) : Bool :=
  c == ' ' || c == '\n' || c == '\t' || c == '\r'

/-- The text without the white space in front. -/
def skipSpace (s : Text) : Text :=
  s.dropWhile isSpace

/-! ## §2. Words. -/

/-- Takes the rest of a word whose first letter was taken. -/
def readWord : Text → Text → Except Stop Text
  | [], s => .ok s
  | _ :: _, [] => faultBefore .endInValue []
  | w :: ws, c :: cs => if c = w then readWord ws cs else faultAt .expectedWord (c :: cs)

/-! ## §3. Numbers. -/

/-- The greatest integer of 64 bits. -/
def greatestInteger : Nat := Nat.pow 2 64 - 1

/-- The greatest exponent that is read. -/
def greatestPower : Nat := Nat.pow 2 31 - 1

/-- Takes digits while the number they continue stays within a bound. -/
def takeDigits (bound : Nat) : Nat → Text → Nat × Text
  | n, [] => (n, [])
  | n, c :: cs =>
    if c.isDigit ∧ n * 10 + (c.toNat - 48) ≤ bound then
      takeDigits bound (n * 10 + (c.toNat - 48)) cs
    else (n, c :: cs)

/-- Skips digits and counts them. -/
def skipDigits : Text → Nat × Text
  | [] => (0, [])
  | c :: cs =>
    if c.isDigit then
      let (n, rest) := skipDigits cs
      (n + 1, rest)
    else (0, c :: cs)

/-- The greatest power of ten that is a magnitude. -/
def greatestTen : Nat := 308

/-- The magnitude of `x · 10 ^ power`, scaled in steps of `10 ^ 308` or less with a rounding after
each; `none` above the largest. -/
def scaleByTen (x : Number.Magnitude) (power : Int) : Option Number.Magnitude :=
  if power.natAbs ≤ greatestTen then
    if 0 ≤ power then x.mul (.powerOfTen power.natAbs) else x.div (.powerOfTen power.natAbs)
  else if x.mantissa = 0 then some x
  else if 0 ≤ power then none
  else (x.div (.powerOfTen greatestTen)).bind (scaleByTen · (power + greatestTen))
termination_by power.natAbs
decreasing_by
  simp only [greatestTen] at *
  omega

/-- A floating-point number from its digits and the power of ten. -/
def makeFloat (negative : Bool) (digits : Nat) (power : Int) (rest : Text) :
    Except Stop (Number × Text) :=
  match (Number.Magnitude.ofRatio digits 1).bind (scaleByTen · power) with
  | some magnitude => .ok (.float negative magnitude, rest)
  | none => faultBefore .numberOutOfRange rest

/-- Reads the part of a number after its `e`. -/
def readExponent (negative : Bool) (digits : Nat) (power : Int) (s : Text) :
    Except Stop (Number × Text) :=
  let (down, s) := match s with
    | '+' :: cs => (false, cs)
    | '-' :: cs => (true, cs)
    | _ => (false, s)
  match s with
  | [] => faultBefore .endInValue []
  | c :: cs =>
    if c.isDigit then
      let (n, rest) := takeDigits greatestPower (c.toNat - 48) cs
      match rest with
      | d :: more =>
        if d.isDigit then
          if digits ≠ 0 ∧ !down then faultBefore .numberOutOfRange more
          else .ok (.float negative .zero, (skipDigits rest).2)
        else makeFloat negative digits (if down then power - n else power + n) rest
      | [] => makeFloat negative digits (if down then power - n else power + n) rest
    else faultAt .invalidNumber (c :: cs)

/-- The rest of a number that is not an integer: an exponent, or nothing more. -/
def finishFloat (negative : Bool) (digits : Nat) (power : Int) (s : Text) :
    Except Stop (Number × Text) :=
  match s with
  | 'e' :: cs => readExponent negative digits power cs
  | 'E' :: cs => readExponent negative digits power cs
  | _ => makeFloat negative digits power s

/-- Reads the part of a number after its point.  Digits beyond 64 bits are dropped. -/
def readFraction (negative : Bool) (digits : Nat) (power : Int) (s : Text) :
    Except Stop (Number × Text) :=
  let (n, rest) := takeDigits greatestInteger digits s
  let (dropped, after) := skipDigits rest
  let taken := s.length - rest.length
  if taken + dropped = 0 then
    match rest with
    | [] => faultAt .endInValue rest
    | _ :: _ => faultAt .invalidNumber rest
  else finishFloat negative n (power - taken) after

/-- Reads what follows the digits before the point. -/
def finishNumber (negative : Bool) (digits : Nat) (s : Text) : Except Stop (Number × Text) :=
  match s with
  | '.' :: cs => readFraction negative digits 0 cs
  | 'e' :: cs => readExponent negative digits 0 cs
  | 'E' :: cs => readExponent negative digits 0 cs
  | _ =>
    if !negative then .ok (.integer digits, s)
    else if digits = 0 ∨ Nat.pow 2 63 < digits then makeFloat true digits 0 s
    else .ok (.integer (-digits), s)

/-- Reads what follows digits before the point that need more than 64 bits; `more` counts those
that were dropped. -/
def finishLong (negative : Bool) (digits more : Nat) (s : Text) : Except Stop (Number × Text) :=
  match s with
  | '.' :: cs => readFraction negative digits more cs
  | _ => finishFloat negative digits more s

/-- Reads a number behind its sign. -/
def readNumber (negative : Bool) (s : Text) : Except Stop (Number × Text) :=
  match s with
  | [] => faultBefore .endInValue []
  | c :: cs =>
    if c = '0' then
      match cs with
      | d :: _ => if d.isDigit then faultAt .invalidNumber cs else finishNumber negative 0 cs
      | [] => finishNumber negative 0 cs
    else if c.isDigit then
      let (n, rest) := takeDigits greatestInteger (c.toNat - 48) cs
      let (dropped, after) := skipDigits rest
      if dropped = 0 then finishNumber negative n rest
      else finishLong negative n dropped after
    else faultAt .invalidNumber (c :: cs)

/-! ## §4. Strings. -/

/-- Reads the four digits of a numbered escape. -/
def readHex (s : Text) : Except Stop (Nat × Text) :=
  if Text.byteSize s < 4 then faultBefore .endInString []
  else
    match s with
    | a :: b :: c :: d :: rest =>
      match Text.natural? 16 [a, b, c, d] with
      | some n => .ok (n, rest)
      | none => .error ⟨.invalidEscape, Text.byteSize s - 4⟩
    | _ => .error ⟨.invalidEscape, Text.byteSize s - 4⟩

/-- The character with a number. -/
def charOf (n : Nat) : Char :=
  Char.ofNat n

/-- The character beyond 16 bits that a pair of surrogates stands for. -/
def charOfPair (high low : Nat) : Char :=
  charOf ((high - 0xD800) * 0x400 + (low - 0xDC00) + 0x10000)

/-- Reads a numbered escape behind its `u`; characters beyond 16 bits take two of them. -/
def readUnicode (s : Text) : Except Stop (Char × Text) := do
  let (high, s) ← readHex s
  if 0xDC00 ≤ high ∧ high ≤ 0xDFFF then faultBefore .loneSurrogate s
  else if high < 0xD800 ∨ 0xDBFF < high then return (charOf high, s)
  else
    match s with
    | [] => faultBefore .endInString []
    | '\\' :: [] => faultBefore .endInString []
    | '\\' :: 'u' :: s =>
      let (low, s) ← readHex s
      if low < 0xDC00 ∨ 0xDFFF < low then faultBefore .loneSurrogate s
      else return (charOfPair high low, s)
    | '\\' :: s => faultAt .endInSurrogate s
    | _ => faultAt .endInSurrogate s

/-- Reads an escape behind its backslash. -/
def readEscape (s : Text) : Except Stop (Char × Text) :=
  match s with
  | [] => faultBefore .endInString []
  | '"' :: cs => .ok ('"', cs)
  | '\\' :: cs => .ok ('\\', cs)
  | '/' :: cs => .ok ('/', cs)
  | 'b' :: cs => .ok (charOf 8, cs)
  | 'f' :: cs => .ok (charOf 12, cs)
  | 'n' :: cs => .ok ('\n', cs)
  | 'r' :: cs => .ok ('\r', cs)
  | 't' :: cs => .ok ('\t', cs)
  | 'u' :: cs => readUnicode cs
  | _ => faultAt .invalidEscape s

/-- What is left behind the digits of an escape is shorter. -/
theorem length_lt_of_readHex {s rest : Text} {n : Nat} (h : readHex s = .ok (n, rest)) :
    rest.length < s.length := by
  unfold readHex faultBefore at h
  repeat' split at h
  all_goals cases h
  simp only [List.length_cons]
  omega

/-- What is left behind a numbered escape is shorter. -/
theorem length_lt_of_readUnicode {s rest : Text} {c : Char} (h : readUnicode s = .ok (c, rest)) :
    rest.length < s.length := by
  unfold readUnicode faultBefore faultAt at h
  cases hs : readHex s with
  | error _ => rw [hs] at h; cases h
  | ok first =>
    have h₁ := @length_lt_of_readHex s first.2 first.1 hs
    rw [hs] at h
    simp only [bind, Except.bind, pure, Except.pure] at h
    repeat' split at h
    all_goals simp only [Except.ok.injEq, Prod.mk.injEq, reduceCtorEq] at h
    · exact h.2 ▸ h₁
    · rw [← h.2]
      rename_i second hp _
      have h₂ := @length_lt_of_readHex _ second.2 second.1 hp
      simp_all only [List.length_cons]
      omega

/-- What is left behind an escape is shorter. -/
theorem length_lt_of_readEscape {s rest : Text} {c : Char} (h : readEscape s = .ok (c, rest)) :
    rest.length < s.length := by
  unfold readEscape faultBefore faultAt at h
  split at h
  case h_1 => cases h
  case h_10 => exact Nat.lt_succ_of_lt (length_lt_of_readUnicode h)
  case h_11 => cases h
  all_goals
    cases h
    exact Nat.lt_succ_self _

/-- Reads a string behind its opening quote. -/
def readString (s : Text) : Except Stop (Text × Text) :=
  match s with
  | [] => faultBefore .endInString []
  | c :: cs =>
    if c = '"' then .ok ([], cs)
    else if c = '\\' then
      match h : readEscape cs with
      | .error e => .error e
      | .ok (d, rest) =>
        have := length_lt_of_readEscape h
        (readString rest).map (fun (s, rest) => (d :: s, rest))
    else if c.toNat < 32 then faultBefore .controlCharacter cs
    else (readString cs).map (fun (s, rest) => (c :: s, rest))
termination_by s.length

/-! ## §5. Values. -/

/-- Reads the items of an array behind the first one. -/
def readItems (item : Text → Except Stop (Json × Text)) :
    Nat → Text → Except Stop (List Json × Text)
  | 0, s => faultAt .endInArray s
  | fuel + 1, s =>
    match skipSpace s with
    | [] => faultAt .endInArray []
    | ']' :: rest => .ok ([], rest)
    | ',' :: rest =>
      match skipSpace rest with
      | [] => faultAt .endInValue []
      | ']' :: rest => faultAt .trailingComma (']' :: rest)
      | next => do
        let (v, rest) ← item next
        let (vs, rest) ← readItems item fuel rest
        return (v :: vs, rest)
    | other => faultAt .expectedCommaOrBracket other

/-- Reads an array behind its opening bracket. -/
def readArray (item : Text → Except Stop (Json × Text)) (s : Text) :
    Except Stop (List Json × Text) :=
  match skipSpace s with
  | [] => faultAt .endInArray []
  | ']' :: rest => .ok ([], rest)
  | next => do
    let (v, rest) ← item next
    let (vs, rest) ← readItems item rest.length.succ rest
    return (v :: vs, rest)

/-- Reads a member of an object behind the quote that opens its key. -/
def readMember (item : Text → Except Stop (Json × Text)) (s : Text) :
    Except Stop ((Text × Json) × Text) := do
  let (key, rest) ← readString s
  match skipSpace rest with
  | [] => faultAt .endInObject []
  | ':' :: rest =>
    let (v, rest) ← item (skipSpace rest)
    return ((key, v), rest)
  | other => faultAt .expectedColon other

/-- Reads the members of an object behind the first one. -/
def readMembers (item : Text → Except Stop (Json × Text)) :
    Nat → List (Text × Json) → Text → Except Stop (List (Text × Json) × Text)
  | 0, _, s => faultAt .endInObject s
  | fuel + 1, members, s =>
    match skipSpace s with
    | [] => faultAt .endInObject []
    | '\x7d' :: rest => .ok (members, rest)
    | ',' :: rest =>
      match skipSpace rest with
      | [] => faultAt .endInValue []
      | '"' :: next => do
        let ((key, v), rest) ← readMember item next
        readMembers item fuel (insert key v members) rest
      | '\x7d' :: rest => faultAt .trailingComma ('\x7d' :: rest)
      | other => faultAt .keyNotString other
    | other => faultAt .expectedCommaOrBrace other

/-- Reads an object behind its opening brace. -/
def readObject (item : Text → Except Stop (Json × Text)) (s : Text) :
    Except Stop (List (Text × Json) × Text) :=
  match skipSpace s with
  | [] => faultAt .endInObject []
  | '\x7d' :: rest => .ok ([], rest)
  | '"' :: next => do
    let ((key, v), rest) ← readMember item next
    readMembers item rest.length.succ (insert key v []) rest
  | other => faultAt .keyNotString other

/-- Reads a value that opens no bracket. -/
def readScalar (s : Text) : Except Stop (Json × Text) :=
  match s with
  | [] => faultAt .endInValue []
  | c :: cs =>
    if c = 'n' then (readWord "ull".toList cs).map (null, ·)
    else if c = 't' then (readWord "rue".toList cs).map (bool true, ·)
    else if c = 'f' then (readWord "alse".toList cs).map (bool false, ·)
    else if c = '-' then (readNumber true cs).map (fun (n, rest) => (number n, rest))
    else if c.isDigit then (readNumber false s).map (fun (n, rest) => (number n, rest))
    else if c = '"' then (readString cs).map (fun (s, rest) => (string s, rest))
    else faultAt .expectedValue s

/-- Reads a value in which at most `depth` brackets are open at once. -/
def readValue : Nat → Text → Except Stop (Json × Text)
  | 0, s =>
    match skipSpace s with
    | '[' :: rest => faultAt .nestingTooDeep ('[' :: rest)
    | '\x7b' :: rest => faultAt .nestingTooDeep ('\x7b' :: rest)
    | other => readScalar other
  | depth + 1, s =>
    match skipSpace s with
    | '[' :: rest => (readArray (readValue depth) rest).map (fun (vs, rest) => (array vs, rest))
    | '\x7b' :: rest =>
      (readObject (readValue depth) rest).map (fun (ms, rest) => (object ms, rest))
    | other => readScalar other

/-- The number of brackets that may be open at once. -/
def deepest : Nat := 127

/-- A cause with its line, from one, and its column: the number of bytes of that line before it. -/
structure Fault where
  line : Nat
  column : Nat
  cause : Cause
  deriving DecidableEq, Repr

/-- The wording of a fault, with its place. -/
def Fault.message (f : Fault) : Text :=
  f.cause.message ++ " at line ".toList ++ Text.ofNat f.line ++ " column ".toList
    ++ Text.ofNat f.column

/-- Reads a text that holds one value. -/
def read (content : Text) : Except Fault Json :=
  let result := do
    let (v, rest) ← readValue deepest content
    match skipSpace rest with
    | [] => return v
    | other => faultAt .trailingCharacters other
  match result with
  | .ok v => .ok v
  | .error stop =>
    let (line, column) :=
      Text.lineColumn (Text.bytes content) (Text.byteSize content - stop.left)
    .error ⟨line, column - 1, stop.cause⟩

end Crosswalk.Json
