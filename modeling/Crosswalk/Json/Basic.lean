/-
  Crosswalk.Json.Basic
  ──────────────────────────────────────
  **JSON VALUES.**

  An object is a list of members in ascending order of their keys, each key
  once; `Json.insert` keeps it so.  A number is an integer of at most 64 bits
  or a floating-point number.
-/
import Crosswalk.Text.Basic
import Crosswalk.Number.Shortest

namespace Crosswalk

/-- A number of a JSON text. -/
inductive Json.Number
  /-- An integer between `-2 ^ 63` and `2 ^ 64 - 1`. -/
  | integer (i : Int)
  | float (negative : Bool) (magnitude : Number.Magnitude)
  deriving DecidableEq, Repr

/-- A JSON value. -/
inductive Json
  | null
  | bool (b : Bool)
  | number (n : Json.Number)
  | string (s : Text)
  | array (items : List Json)
  | object (members : List (Text × Json))
  deriving Repr, BEq

namespace Json

/-- Puts a member into an object, in place of one with the same key. -/
def insert (key : Text) (value : Json) : List (Text × Json) → List (Text × Json)
  | [] => [(key, value)]
  | (k, v) :: rest =>
    if key = k then (key, value) :: rest
    else if key < k then (key, value) :: (k, v) :: rest
    else (k, v) :: insert key value rest

/-- The member with the key. -/
def member? (key : Text) (members : List (Text × Json)) : Option Json :=
  (members.find? (·.1 = key)).map (·.2)

/-- What a value is called in messages. -/
def kind : Json → Text
  | null => "null".toList
  | bool _ => "a boolean".toList
  | number _ => "a number".toList
  | string _ => "a string".toList
  | array _ => "an array".toList
  | object _ => "an object".toList

/-! ## §1. Values by path. -/

/-- The value at a path: a key in an object, a position in an array. -/
def lookup : List Text → Json → Option Json
  | [], v => some v
  | key :: rest, object members => (member? key members).bind (lookup rest)
  | key :: rest, array items =>
    ((Text.unsigned? 10 (Nat.pow 2 64 - 1) key).bind (items[·]?)).bind (lookup rest)
  | _ :: _, _ => none

end Json

end Crosswalk
