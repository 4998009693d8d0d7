/-
  Crosswalk.Transform.Argument
  ──────────────────────────────────────
  **ARGUMENTS OF A CALL.**

  A text is scanned from the left with a `Mark`: the quote that is open and
  the character before.  A quote opens and closes only when no backslash
  stands before it.  Outside of quotes parentheses nest, and

    • `callBody?` finds the parenthesis that closes a call,
    • `splitArguments` cuts at the commas outside of all parentheses,
    • `unquote?` takes the quotes off a literal.
-/
import Crosswalk.Text.Basic

namespace Crosswalk.Transform

/-! ## §1. Quotes. -/

/-- A character that opens and closes literals. -/
def isQuote (c : Char) : Bool :=
  c == '\'' || c == '"'

/-- What was seen so far: the open quote and the last character. -/
structure Mark where
  quote : Option Char
  last : Char
  deriving DecidableEq, Repr

namespace Mark

/-- Nothing seen. -/
def initial : Mark := ⟨none, Char.ofNat 0⟩

/-- No quote is open. -/
def outside (m : Mark) : Bool :=
  m.quote.isNone

/-- Goes over a character. -/
def step (m : Mark) (c : Char) : Mark :=
  let quote :=
    if m.last = '\\' then m.quote
    else
      match m.quote with
      | some q => if c = q then none else some q
      | none => if isQuote c then some c else none
  ⟨quote, c⟩

end Mark

/-! ## §2. The body of a call. -/

/-- The text up to the parenthesis that closes `depth` others and the call. -/
def bodyFrom? (m : Mark) (depth : Nat) : Text → Option Text
  | [] => none
  | c :: cs =>
    let next := m.step c
    if m.outside && c = ')' then
      match depth with
      | 0 => some []
      | depth + 1 => (bodyFrom? next depth cs).map (c :: ·)
    else
      (bodyFrom? next (if m.outside && c = '(' then depth + 1 else depth) cs).map (c :: ·)

/-- The body of a call, given the text behind its opening parenthesis. -/
def callBody? (s : Text) : Option Text :=
  bodyFrom? .initial 0 s

/-! ## §3. Arguments. -/

/-- The number of open parentheses behind a character; one that closes nothing does not count. -/
def depthAfter (m : Mark) (depth : Nat) (c : Char) : Nat :=
  if m.outside && c = '(' then depth + 1
  else if m.outside && c = ')' then depth - 1
  else depth

/-- The pieces of a text between its commas outside of quotes and parentheses. -/
def piecesFrom (m : Mark) (depth : Nat) : Text → List Text
  | [] => [[]]
  | c :: cs =>
    if m.outside && c = ',' && depth = 0 then [] :: piecesFrom (m.step c) depth cs
    else
      match piecesFrom (m.step c) (depthAfter m depth c) cs with
      | piece :: rest => (c :: piece) :: rest
      | [] => [[c]]

/-- The list without its last piece when that is empty. -/
def dropEmptyLast : List Text → List Text
  | [] => []
  | [[]] => []
  | piece :: rest => piece :: dropEmptyLast rest

/-- The arguments in the body of a call, trimmed. -/
def splitArguments (body : Text) : List Text :=
  (dropEmptyLast (piecesFrom .initial 0 body)).map Text.trim

/-! ## §4. Literals. -/

/-- The text between the quotes, when an argument begins and ends with the same quote. -/
def unquote? : Text → Option Text
  | [] => none
  | q :: rest =>
    match rest.getLast? with
    | some c => if isQuote q && c = q then some rest.dropLast else none
    | none => none

end Crosswalk.Transform
