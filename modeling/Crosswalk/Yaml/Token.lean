/-
  Crosswalk.Yaml.Token
  ──────────────────────────────────────
  **THE TOKENS OF A YAML TEXT.**

  A text is read from the left into tokens.  Blocks are opened and closed by
  indentation, so they have tokens without a text.  Whether a word is a key
  is seen only at the colon behind it: a place where a key may begin is kept
  (`Candidate`), and the tokens of the key are put in at that place later.

  Tokens behind a candidate that is still open cannot be used yet: when the
  text turns out to be no YAML, `Tokens.usable` says how many come before
  the fault.
-/
import Crosswalk.Yaml.PlainScalar
import Crosswalk.Yaml.Tag

namespace Crosswalk.Yaml

/-! ## §1. Tokens. -/

/-- What a token is. -/
inductive TokenKind
  | streamEnd
  | directive (d : Directive)
  | documentStart
  | documentEnd
  | blockSequenceStart
  | blockMappingStart
  | blockEnd
  | flowSequenceStart
  | flowSequenceEnd
  | flowMappingStart
  | flowMappingEnd
  | blockEntry
  | flowEntry
  | key
  | value
  | aliasName (name : Text)
  | anchor (name : Text)
  | tag (t : Tag)
  | scalar (plain : Bool) (s : Text)
  deriving DecidableEq, Repr

/-- A token with its first place and the place behind it. -/
structure Token where
  kind : TokenKind
  start : Mark
  finish : Mark
  deriving DecidableEq, Repr

/-- A place where a key may have begun. -/
structure Candidate where
  mark : Mark
  /-- The number of tokens before it. -/
  index : Nat
  /-- Nothing else than a key may stand there. -/
  required : Bool
  deriving DecidableEq, Repr

/-- How long a key may be. -/
def longestKey : Nat := 1024

/-- A candidate is over when its line ends or the key gets too long. -/
def Candidate.isOver (c : Candidate) (m : Mark) : Bool :=
  c.mark.line < m.line || c.mark.column + longestKey < m.column

/-! ## §2. The reader. -/

/-- The tokens so far and what is ahead. -/
structure Tokens where
  rest : Text
  mark : Mark
  /-- The tokens, the last one first. -/
  made : List Token
  /-- The number of tokens. -/
  count : Nat
  /-- The candidates: of the place reached, and of the flow collections around it. -/
  candidates : List (Option Candidate)
  /-- A key may begin here. -/
  keyAllowed : Bool
  /-- The column of the block, minus one for none. -/
  indent : Int
  /-- The columns of the blocks around it. -/
  outer : List Int
  /-- How many tokens can be used already. -/
  usable : Nat
  /-- The text is read to its end. -/
  done : Bool
  deriving Repr

namespace Tokens

/-- Nothing read. -/
def initial (s : Text) : Tokens :=
  ⟨s, .zero, [], 0, [none], true, -1, [], 0, false⟩

/-- The reader is within brackets or braces. -/
def inFlow (t : Tokens) : Bool :=
  1 < t.candidates.length

/-- The column of the reader. -/
def column (t : Tokens) : Int :=
  t.mark.column

/-- Goes on to a place. -/
def goto (t : Tokens) (m : Mark) (rest : Text) : Tokens :=
  { t with mark := m, rest := rest }

/-- Adds a token. -/
def add (t : Tokens) (kind : TokenKind) (start finish : Mark) : Tokens :=
  { t with made := ⟨kind, start, finish⟩ :: t.made, count := t.count + 1 }

/-- Adds a token of so many characters, and goes behind it. -/
def addSign (t : Tokens) (kind : TokenKind) (length : Nat) : Tokens :=
  let finish := t.mark.forward length
  (t.add kind t.mark finish).goto finish (t.rest.drop length)

/-- Puts a token without a text before those from an index on. -/
def insert (t : Tokens) (index : Nat) (kind : TokenKind) (m : Mark) : Tokens :=
  let behind := t.count - index
  { t with
    made := t.made.take behind ++ ⟨kind, m, m⟩ :: t.made.drop behind
    count := t.count + 1 }

/-! ## §3. Candidates for keys. -/

/-- The error that a required key is missing. -/
def missingColon {α : Type} (t : Tokens) (c : Candidate) : Except Fault α :=
  .error ⟨.missingColon, t.mark, some (.simpleKey, c.mark)⟩

/-- Removes the candidates that are over. -/
def dropOver (t : Tokens) : Except Fault Tokens :=
  match t.candidates.reverse.findSome?
      (fun c => c.filter (fun c => c.isOver t.mark && c.required)) with
  | some c => t.missingColon c
  | none =>
    .ok { t with candidates := t.candidates.map (·.filter (fun c => !c.isOver t.mark)) }

/-- Removes the candidate of the place reached. -/
def dropCandidate (t : Tokens) : Except Fault Tokens :=
  match t.candidates with
  | some c :: rest =>
    if c.required then t.missingColon c else .ok { t with candidates := none :: rest }
  | _ => .ok t

/-- Keeps the place reached as a candidate, when a key may begin here. -/
def keepCandidate (t : Tokens) : Except Fault Tokens :=
  if t.keyAllowed then
    let c : Candidate := ⟨t.mark, t.count, !t.inFlow && t.indent == t.column⟩
    match t.dropCandidate with
    | .error f => .error f
    | .ok t => .ok { t with candidates := some c :: t.candidates.drop 1 }
  else .ok t

/-! ## §4. Indentation. -/

/-- Opens a block at a column, unless the reader is in a block of that column or within brackets.
The token goes before those from an index on. -/
def openBlock (t : Tokens) (index : Nat) (kind : TokenKind) (m : Mark) : Tokens :=
  if !t.inFlow && t.indent < m.column then
    ({ t with indent := m.column, outer := t.indent :: t.outer }).insert index kind m
  else t

/-- Closes the blocks that are deeper than a column, given the blocks around. -/
def closeTo (column : Int) : Tokens → List Int → Tokens
  | t, [] => t
  | t, i :: rest =>
    if column < t.indent then
      closeTo column { t.add .blockEnd t.mark t.mark with indent := i, outer := rest } rest
    else t

/-- Closes the blocks that are deeper than a column. -/
def closeBlocks (t : Tokens) (column : Int) : Tokens :=
  if t.inFlow then t else closeTo column t t.outer

/-! ## §5. White space. -/

/-- Goes over white space and comments.  Tabs count only where no key may begin; behind a break a
key may begin, unless the reader is within brackets. -/
def skipSpace (flow : Bool) : (keyAllowed inComment : Bool) → Mark → Text → Bool × Mark × Text
  | keyAllowed, _, m, [] => (keyAllowed, m, [])
  | keyAllowed, inComment, m, c :: rest =>
    if isBreak c then skipSpace flow (keyAllowed || !flow) false m.newLine rest
    else if inComment || c = ' ' || c = '#' || (c = '\t' && (flow || !keyAllowed))
        || (c.toNat = 0xFEFF && m.column = 0) then
      skipSpace flow keyAllowed (inComment || c = '#') m.next rest
    else (keyAllowed, m, c :: rest)

/-! ## §6. One more token. -/

/-- Ends the text: closes all blocks. -/
def finish (t : Tokens) : Except Fault Tokens :=
  let m := if t.mark.column = 0 then t.mark else t.mark.newLine
  match ((t.goto m []).closeBlocks (-1)).dropCandidate with
  | .error f => .error f
  | .ok t => .ok { t.add .streamEnd t.mark t.mark with keyAllowed := false, done := true }

/-- A directive. -/
def takeDirective (t : Tokens) : Except Fault Tokens := do
  let t ← (t.closeBlocks (-1)).dropCandidate
  let (d, finish, m, rest) ← readDirective t.mark t.rest
  return { (t.add (.directive d) t.mark finish).goto m rest with keyAllowed := false }

/-- The start or the end of a document. -/
def takeDocumentSign (t : Tokens) (kind : TokenKind) : Except Fault Tokens := do
  let t ← (t.closeBlocks (-1)).dropCandidate
  return { t.addSign kind 3 with keyAllowed := false }

/-- An opening bracket or brace. -/
def takeOpening (t : Tokens) (kind : TokenKind) : Except Fault Tokens := do
  let t ← t.keepCandidate
  return { t.addSign kind 1 with candidates := none :: t.candidates, keyAllowed := true }

/-- A closing bracket or brace. -/
def takeClosing (t : Tokens) (kind : TokenKind) : Except Fault Tokens := do
  let t ← t.dropCandidate
  let candidates := if t.inFlow then t.candidates.drop 1 else t.candidates
  return { t.addSign kind 1 with candidates := candidates, keyAllowed := false }

/-- A comma within brackets. -/
def takeComma (t : Tokens) : Except Fault Tokens := do
  let t ← t.dropCandidate
  return { t.addSign .flowEntry 1 with keyAllowed := true }

/-- A dash before an item. -/
def takeDash (t : Tokens) : Except Fault Tokens := do
  if !t.inFlow && !t.keyAllowed then throw ⟨.sequenceNotAllowed, t.mark, none⟩
  let t ← (t.openBlock t.count .blockSequenceStart t.mark).dropCandidate
  return { t.addSign .blockEntry 1 with keyAllowed := true }

/-- A question mark before a key. -/
def takeKey (t : Tokens) : Except Fault Tokens := do
  if !t.inFlow && !t.keyAllowed then throw ⟨.keyNotAllowed, t.mark, none⟩
  let t ← (t.openBlock t.count .blockMappingStart t.mark).dropCandidate
  return { t.addSign .key 1 with keyAllowed := !t.inFlow }

/-- A colon before a value.  The candidate, if there is one, was a key. -/
def takeValue (t : Tokens) : Except Fault Tokens :=
  match t.candidates with
  | some c :: others =>
    let t := (t.insert c.index .key c.mark).openBlock c.index .blockMappingStart c.mark
    .ok { t.addSign .value 1 with candidates := none :: others, keyAllowed := false }
  | _ =>
    if !t.inFlow && !t.keyAllowed then .error ⟨.valueNotAllowed, t.mark, none⟩
    else
      let t := t.openBlock t.count .blockMappingStart t.mark
      .ok { t.addSign .value 1 with keyAllowed := !t.inFlow }

/-- A character that may follow a name of an anchor. -/
def endsName : Text → Bool
  | [] => true
  | c :: rest => atGap (c :: rest) || "?:,]\x7d%@`".toList.contains c

/-- An anchor or an alias. -/
def takeName (t : Tokens) (context : Context) (kind : Text → TokenKind) : Except Fault Tokens := do
  let t ← t.keepCandidate
  let behind := t.rest.drop 1
  let name := behind.takeWhile isWordChar
  let rest := behind.dropWhile isWordChar
  if name.isEmpty || !endsName rest then
    throw ⟨.badName, t.mark.forward (1 + name.length), some (context, t.mark)⟩
  return { t.addSign (kind name) (1 + name.length) with keyAllowed := false }

/-- A tag. -/
def takeTag (t : Tokens) : Except Fault Tokens := do
  let t ← t.keepCandidate
  let (tag, m, rest) ← readTag t.inFlow t.mark t.rest
  return { (t.add (.tag tag) t.mark m).goto m rest with keyAllowed := false }

/-- A block scalar. -/
def takeBlockScalar (t : Tokens) (folded : Bool) : Except Fault Tokens := do
  let t ← t.dropCandidate
  let r ← readBlock t.mark folded t.indent t.mark.next (t.rest.drop 1)
  return { (t.add (.scalar false r.value) t.mark r.mark).goto r.mark r.rest with
    keyAllowed := true }

/-- A quoted scalar. -/
def takeQuoted (t : Tokens) (quote : Char) : Except Fault Tokens := do
  let t ← t.keepCandidate
  let r ← readQuoted t.mark quote .word t.mark.next (t.rest.drop 1)
  return { (t.add (.scalar false r.value) t.mark r.mark).goto r.mark r.rest with
    keyAllowed := false }

/-- A plain scalar. -/
def takePlain (t : Tokens) : Except Fault Tokens := do
  let t ← t.keepCandidate
  let r ← readPlain ⟨t.mark, t.inFlow, t.indent + 1⟩ t.mark .none t.mark t.rest
  return { (t.add (.scalar true r.value) t.mark r.finish).goto r.mark r.rest with
    keyAllowed := r.broken }

/-- A character that starts no plain scalar, unless it is a dash, a question mark or a colon. -/
def isIndicator (c : Char) : Bool :=
  "-?:,[]\x7b\x7d#&*!|>'\"%@`".toList.contains c

/-- A plain scalar may start here. -/
def startsPlain (flow : Bool) : Text → Bool
  | [] => false
  | c :: rest =>
    !(atGap (c :: rest) || isIndicator c)
      || (c == '-' && !(rest.head?.any isBlank))
      || (!flow && (c == '?' || c == ':') && !atGap rest)

/-- The token at the front of a text that is neither blank nor at its end. -/
def takeToken (t : Tokens) : Except Fault Tokens :=
  match t.rest with
  | [] => t.finish
  | c :: rest =>
    let atStart := t.mark.column == 0
    if atStart && c == '%' then t.takeDirective
    else if atStart && atDocumentSign '-' t.rest then t.takeDocumentSign .documentStart
    else if atStart && atDocumentSign '.' t.rest then t.takeDocumentSign .documentEnd
    else if c = '[' then t.takeOpening .flowSequenceStart
    else if c = '\x7b' then t.takeOpening .flowMappingStart
    else if c = ']' then t.takeClosing .flowSequenceEnd
    else if c = '\x7d' then t.takeClosing .flowMappingEnd
    else if c = ',' then t.takeComma
    else if c = '-' && atGap rest then t.takeDash
    else if c = '?' && (t.inFlow || atGap rest) then t.takeKey
    else if c = ':' && (t.inFlow || atGap rest) then t.takeValue
    else if c = '*' then t.takeName .aliasName .aliasName
    else if c = '&' then t.takeName .anchor .anchor
    else if c = '!' then t.takeTag
    else if c = '|' && !t.inFlow then t.takeBlockScalar false
    else if c = '>' && !t.inFlow then t.takeBlockScalar true
    else if c = '\'' then t.takeQuoted '\''
    else if c = '"' then t.takeQuoted '"'
    else if startsPlain t.inFlow t.rest then t.takePlain
    else .error ⟨.strayCharacter, t.mark, some (.token, t.mark)⟩

/-- Goes to the next token and takes it. -/
def takeNext (t : Tokens) : Except Fault Tokens := do
  let (keyAllowed, m, rest) := skipSpace t.inFlow t.keyAllowed false t.mark t.rest
  let t ← dropOver { t.goto m rest with keyAllowed := keyAllowed }
  takeToken (t.closeBlocks t.column)

/-- Finds how many tokens can be used: those before the first open candidate. -/
def release (t : Tokens) : Except Fault Tokens :=
  match t.dropOver with
  | .error f => .error f
  | .ok t =>
    let open_ := t.candidates.filterMap (·.map Candidate.index)
    .ok { t with usable := (open_.filter (t.usable ≤ ·)).foldl min t.count }

end Tokens

/-! ## §7. Whole texts. -/

/-- Takes tokens to the end of the text; at most `fuel` times.  Gives the usable ones, and the
fault that comes after them. -/
def takeAll : Nat → Tokens → List Token × Option Fault
  | 0, t => (t.made.reverse, none)
  | fuel + 1, t =>
    if t.done then (t.made.reverse, none)
    else
      match t.takeNext with
      | .error f => (t.made.reverse.take t.usable, some f)
      | .ok next =>
        match next.release with
        | .error f => (next.made.reverse.take next.usable, some f)
        | .ok next => takeAll fuel next

/-- The tokens of a text with uniform breaks, up to its end or up to a fault.  Each step but the
last takes a character. -/
def tokens (s : Text) : List Token × Option Fault :=
  takeAll (s.length + 2) (.initial s)

end Crosswalk.Yaml
