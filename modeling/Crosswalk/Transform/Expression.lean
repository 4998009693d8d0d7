/-
  Crosswalk.Transform.Expression
  ──────────────────────────────────────
  **TRANSFORM EXPRESSIONS.**

  An expression is one call of a function of a closed vocabulary.  A text
  that starts with the name of a function stands for a call of it, and is
  malformed when it cannot be read as one; any other text passes the value
  through.  Two functions are known by their names alone.
-/
import Crosswalk.Transform.Argument

namespace Crosswalk.Transform

/-! ## §1. Functions. -/

/-- The functions. -/
inductive Function
  /-- The current instant in a pattern. -/
  | formatDateTime
  /-- The arguments one after the other. -/
  | concat
  /-- The end of a text. -/
  | substring
  /-- The instant some days ago. -/
  | subtractDays
  /-- The response code of a status. -/
  | responseCode
  /-- The value itself. -/
  | sessionId
  deriving DecidableEq, Repr

namespace Function

/-- The name of a function in expressions. -/
def name : Function → Text
  | formatDateTime => "formatDateTime".toList
  | concat => "concat".toList
  | substring => "substring".toList
  | subtractDays => "subtractDays".toList
  | responseCode => "mapStatusToResponseCode".toList
  | sessionId => "extractSessionId".toList

/-- All functions. -/
def all : List Function :=
  [formatDateTime, concat, substring, subtractDays, responseCode, sessionId]

/-- The function whose name starts the text. -/
def leading? (s : Text) : Option Function :=
  all.find? (fun f => f.name.isPrefixOf s)

end Function

/-! ## §2. Expressions. -/

/-- An expression. -/
inductive Expression
  | formatDateTime (source pattern : Text)
  | concat (args : List Text)
  | substring (source : Text) (index : Int)
  | subtractDays (source : Text) (days : Nat)
  | responseCode
  | sessionId
  /-- A text that starts with the name of a function and is no call of it. -/
  | malformed (f : Function)
  | passthrough
  deriving DecidableEq, Repr

/-! ## §3. Reading. -/

/-- A character of the name of a called function. -/
def isNameChar (c : Char) : Bool :=
  c.isAlphanum || c == '_'

/-- The text behind the opening parenthesis of a call of the function. -/
def afterHead? (f : Function) (s : Text) : Option Text :=
  if s.takeWhile isNameChar = f.name then
    match Text.trimStart (s.dropWhile isNameChar) with
    | '(' :: rest => some rest
    | _ => none
  else none

/-- The arguments of a call of the function; text behind the call does not count. -/
def callArguments? (f : Function) (s : Text) : Option (List Text) :=
  ((afterHead? f s).bind callBody?).map splitArguments

/-- The greatest number of days. -/
def mostDays : Nat := Nat.pow 2 63 - 1

/-- The call of a function with two arguments. -/
def ofTwo? (f : Function) (source second : Text) : Option Expression :=
  if source.isEmpty || second.isEmpty then none
  else
    match f with
    | .formatDateTime =>
      ((unquote? second).filter (fun p => !p.isEmpty && !p.any isQuote)).map
        (.formatDateTime source)
    | .substring => (Text.signed? 10 64 second).map (.substring source)
    | .subtractDays =>
      ((Text.natural? 10 second).filter (· ≤ mostDays)).map (.subtractDays source)
    | _ => none

/-- The call of a function. -/
def ofCall? : Function → List Text → Option Expression
  | .concat, [] => none
  | .concat, a :: args => some (.concat (a :: args))
  | f, [source, second] => ofTwo? f source second
  | _, _ => none

/-- Reads an expression. -/
def Expression.read (text : Text) : Expression :=
  let s := Text.trim text
  match Function.leading? s with
  | none => .passthrough
  | some .responseCode => .responseCode
  | some .sessionId => .sessionId
  | some f => ((callArguments? f s).bind (ofCall? f)).getD (.malformed f)

end Crosswalk.Transform
