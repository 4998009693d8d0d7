/-
  Crosswalk.Transform.Evaluate
  ──────────────────────────────────────
  **APPLYING AN EXPRESSION TO A VALUE.**

  An expression sees the current value of a field, which may be absent, the
  message, and the current instant (`Setting`).  Arguments are references:
  `value` is the current value, `source.x` a field of the message, a quoted
  text its literal, anything else stands for itself.

  Only patterns and counts of days can fail; everything else has an answer.
-/
import Crosswalk.Calendar.Pattern
import Crosswalk.Path.Field
import Crosswalk.Transform.Expression

namespace Crosswalk.Transform

open Calendar

/-- What an expression is applied in. -/
structure Setting where
  /-- What the clock shows, at whatever place of the expression it is looked at. -/
  now : Instant
  value : Option Text
  message : Option Message
  deriving Repr

/-- Why an expression has no result. -/
inductive Fault
  | pattern (pattern : Text) (f : PatternFault)
  /-- The instant so many days ago is beyond the calendar. -/
  | days (n : Nat)
  deriving DecidableEq, Repr

/-- The wording of a fault. -/
def Fault.message : Fault → Text
  | pattern p f => f.message p
  | days n => "cannot subtract ".toList ++ Text.ofNat n ++ " days".toList

/-! ## §1. Status codes. -/

/-- The response code of a payment status. -/
def responseCode (status : Option Text) : Text :=
  match status with
  | none => "99".toList
  | some s =>
    if s = "ACSC".toList then "25".toList
    else if s = "ACCP".toList then "00".toList
    else if s = "ACSP".toList then "01".toList
    else if s = "RJCT".toList then "99".toList
    else if s = "CANC".toList then "98".toList
    else if s = "PDNG".toList then "02".toList
    else "99".toList

/-! ## §2. Instants. -/

/-- The form of `now()` in a concatenation. -/
def compactStamp : Text := "yyyyMMddHHmmss".toList

/-- The form of an instant some days ago. -/
def fullStamp : Text := "yyyy-MM-dd'T'HH:mm:ss.SSS'Z'".toList

/-- Puts quotes around every `T`. -/
def quoteT (s : Text) : Text :=
  s.flatMap (fun c => if c = 'T' then "'T'".toList else [c])

/-- Puts a final `Z` between quotes, also for a final `z`, unless it is the end of a quoted one. -/
def quoteFinalZone (s : Text) : Text :=
  match s.getLast? with
  | some c => if c = 'Z' ∨ c = 'z' then s.dropLast ++ "'Z'".toList else s
  | none => s

/-- The pattern with the letter between date and time, and that of the zone, taken literally. -/
def normalizePattern (pattern : Text) : Text :=
  let hasTime := ["THH", "Tmm", "Tss"].any (fun t => Text.contains t.toList pattern)
  quoteFinalZone (if hasTime then quoteT pattern else pattern)

/-- An instant in the form of a pattern. -/
def stamp (t : Instant) (pattern : Text) : Except Fault Text :=
  (format t pattern).mapError (.pattern pattern)

/-- The current instant in the form of a pattern of an expression. -/
def Setting.stampNow (s : Setting) (pattern : Text) : Except Fault Text :=
  stamp s.now (normalizePattern pattern)

/-- The instant some days ago. -/
def Setting.stampBefore (s : Setting) (days : Nat) : Except Fault Text :=
  match s.now.minusDays? days with
  | some t => stamp t fullStamp
  | none => .error (.days days)

/-! ## §3. References. -/

/-- What a reference stands for. -/
def Setting.resolve? (s : Setting) (reference : Text) : Option Text :=
  let reference := Text.trim reference
  if reference.isEmpty || reference == "value".toList then s.value
  else if Path.sourceMark.isPrefixOf reference then
    s.message.bind (Path.field? · reference)
  else some ((unquote? reference).getD reference)

/-- The text from an index on, or as many of its last characters as a negative index says.  A text
without that index is kept as it is. -/
def tail (text : Text) (index : Int) : Text :=
  if index < 0 then text.drop (text.length - index.natAbs)
  else if index.natAbs < text.length then text.drop index.natAbs
  else text

/-- The end of what a reference stands for; the value when it stands for nothing. -/
def Setting.ending? (s : Setting) (source : Text) (index : Int) : Option Text :=
  ((s.resolve? source).map (tail · index)).or s.value

/-! ## §4. Expressions. -/

/-- An argument of a concatenation: a literal, `now()`, a call of one of two functions, or a
reference. -/
def Setting.argument (s : Setting) (arg : Text) : Except Fault Text :=
  match unquote? arg with
  | some literal => .ok literal
  | none =>
    if arg = "now()".toList then stamp s.now compactStamp
    else
      match Expression.read arg with
      | .formatDateTime _ pattern => s.stampNow pattern
      | .substring source index => .ok ((s.ending? source index).getD [])
      | .malformed .formatDateTime => .ok (s.value.getD [])
      | .malformed .substring => .ok (s.value.getD [])
      | _ => .ok ((s.resolve? arg).getD [])

/-- The arguments of a concatenation one after the other. -/
def Setting.arguments (s : Setting) : List Text → Except Fault Text
  | [] => .ok []
  | a :: rest => do
    let first ← s.argument a
    let others ← s.arguments rest
    return first ++ others

/-- The result of an expression. -/
def Setting.evaluate (s : Setting) : Expression → Except Fault (Option Text)
  | .formatDateTime _ pattern => (s.stampNow pattern).map some
  | .concat args => (s.arguments args).map some
  | .substring source index => .ok (s.ending? source index)
  | .subtractDays _ days => (s.stampBefore days).map some
  | .responseCode => .ok (some (Transform.responseCode s.value))
  | .malformed .formatDateTime => .ok (some (s.value.getD []))
  | .malformed .subtractDays => .ok (some (s.value.getD []))
  | .sessionId => .ok s.value
  | .malformed _ => .ok s.value
  | .passthrough => .ok s.value

/-- Reads an expression and gives its result. -/
def Setting.apply (s : Setting) (text : Text) : Except Fault (Option Text) :=
  s.evaluate (.read text)

end Crosswalk.Transform
