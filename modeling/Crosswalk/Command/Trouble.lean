/-
  Crosswalk.Command.Trouble
  ──────────────────────────────────────
  **WHY A COMMAND FAILED, FROM THE OUTSIDE IN.**

  A trouble is a message and the messages of its causes, each the cause of
  the one before it.  It is reported on several lines, the causes indented
  and numbered when there is more than one, or in a single line with colons.
-/
import Crosswalk.Delivery.Translator

namespace Crosswalk.Command

/-! ## §1. Troubles. -/

/-- A message and the messages of its causes, the nearest first. -/
structure Trouble where
  message : Text
  causes : List Text
  deriving DecidableEq, Repr

namespace Trouble

/-- A trouble without a cause. -/
def plain (message : Text) : Trouble :=
  ⟨message, []⟩

/-- A trouble around another one. -/
def around (message : Text) (cause : Trouble) : Trouble :=
  ⟨message, cause.message :: cause.causes⟩

/-- A message about a file, followed by its name. -/
def withFile (message : String) (file : Text) (cause : Trouble) : Trouble :=
  around (message.toList ++ ' ' :: file) cause

/-! ## §2. The troubles of this library. -/

/-- The trouble with a disk. -/
def ofDisk (e : Storage.DiskError) : Trouble :=
  plain e.message

/-- The trouble with a message that cannot be read. -/
def ofReadError (e : Message.ReadError) : Trouble :=
  plain e.message

/-- The trouble with a message of a route that cannot be read. -/
def ofUnreadable (u : Engine.Unreadable) : Trouble :=
  around u.message (ofReadError u.error)

/-- The trouble with a route that cannot be loaded. -/
def ofLoadError (e : Catalog.LoadError) : Trouble :=
  match e with
  | .disk cause => around e.message (ofDisk cause)
  | _ => plain e.message

/-- The trouble with a translation. -/
def ofFailure (f : Delivery.Failure) : Trouble :=
  match f with
  | .load _ cause => around f.message (ofLoadError cause)
  | .request _ cause => around f.message (ofUnreadable cause)
  | .reply _ cause => around f.message (ofUnreadable cause)
  | .encryption reason => around f.message (plain reason)
  | .forwarding _ reason => around f.message (plain reason)
  | _ => plain f.message

/-! ## §3. Reports. -/

/-- The lines of a text, every one but the first after a line break and an indentation. -/
def indented (indent : Nat) (s : Text) : Text :=
  ('\n' :: List.replicate indent ' ').intercalate (s.splitOn '\n')

/-- A number at the end of five columns. -/
def numbered (n : Nat) (s : Text) : Text :=
  let digits := Text.ofNat n
  '\n' :: List.replicate (5 - digits.length) ' ' ++ digits ++ ": ".toList ++ indented 7 s

/-- The causes of a trouble on lines of their own. -/
def causeLines : List Text → Text
  | [] => []
  | [cause] => "\n\nCaused by:\n    ".toList ++ indented 4 cause
  | causes => "\n\nCaused by:".toList ++ (causes.zipIdx.map (fun (s, n) => numbered n s)).flatten

/-- A trouble with its causes on several lines. -/
def report (t : Trouble) : Text :=
  "Error: ".toList ++ t.message ++ causeLines t.causes ++ ['\n']

/-- A trouble with its causes in one line. -/
def inline (t : Trouble) : Text :=
  ": ".toList.intercalate (t.message :: t.causes)

end Trouble

end Crosswalk.Command
