/-
  Crosswalk.Engine.Request
  ──────────────────────────────────────
  **FROM A MESSAGE TO THE CANONICAL DOCUMENT.**

  The message of a partner is read in the format of its route, and its fields
  are carried over into an empty document with the root and the namespace of
  the route.  The written document gets the prefix of the root in the end.

  The program looks at its clock each time that an expression asks for it.
  Here the clock is held fixed: all fields of one translation see the same
  instant, the `now` of `request`.
-/
import Crosswalk.Engine.Field
import Crosswalk.Engine.RootPrefix

namespace Crosswalk.Engine

open Route (FieldMapping)

/-- A message of a route that could not be read. -/
structure Unreadable where
  route : Text
  error : Message.ReadError
  deriving DecidableEq, Repr

/-- The wording of an unreadable message. -/
def Unreadable.message (u : Unreadable) : Text :=
  "Failed to parse message for route '".toList ++ u.route ++ "': ".toList ++ u.error.message

/-- A translated text and the field mappings that were skipped. -/
structure Translated where
  text : Text
  skipped : List Skipped
  deriving Repr

/-- The value that a mapping gives to its target. -/
def requestValue (now : Calendar.Instant) (message : Message) (f : FieldMapping) :
    Except Transform.Fault (Option Text) :=
  let value := (f.source.bind (Path.field? message)).or f.fallback
  match f.expression? with
  | some e => Transform.Setting.apply ⟨now, value, some message⟩ e
  | none => .ok value

/-- Carries one field over into the document. -/
def applyRequest (now : Calendar.Instant) (message : Message) (root : Markup.Element)
    (f : FieldMapping) : Markup.Element × Option FieldError :=
  setField f.target (requestValue now message f) root

/-- The document before any field is carried over. -/
def emptyTarget (r : Route) : Markup.Element :=
  match r.space with
  | none => .bare r.root none
  | some space =>
    match space.uri with
    | none => .bare r.root none
    | some uri =>
      let pre := space.pre.getD []
      let root := Markup.Element.bare r.root (some ⟨pre, uri⟩)
      match space.rootPre with
      | some rootPre =>
        if !rootPre.isEmpty && rootPre != pre then root.declare ⟨rootPre, uri⟩ else root
      | none => root

/-- The document after all fields were carried over. -/
def target (now : Calendar.Instant) (message : Message) (r : Route) :
    Markup.Element × List Skipped :=
  runFields r.id (applyRequest now message) 0 (emptyTarget r) r.request

/-- The prefix that the root gets in the end, with the URI of the namespace. -/
def rootSpace? (r : Route) : Option Markup.Namespace :=
  match r.space with
  | some ⟨some uri, _, some pre⟩ => if pre.isEmpty then none else some ⟨pre, uri⟩
  | _ => none

/-- The text of the canonical document. -/
def writeTarget (r : Route) (root : Markup.Element) : Text :=
  match rootSpace? r with
  | some ns => prefixRoot r.root ns (Markup.write root)
  | none => Markup.write root

/-- Reads a message in the inbound format of a route. -/
def readInbound (content : Text) (r : Route) : Except Unreadable Message :=
  match r.inbound with
  | none => .error ⟨r.id, .unsupported "(none)".toList⟩
  | some format => (Message.read format content).mapError (⟨r.id, ·⟩)

/-- Translates a message into the canonical document of a route, while the clock shows `now`. -/
def request (now : Calendar.Instant) (content : Text) (r : Route) :
    Except Unreadable Translated :=
  (readInbound content r).map (fun message =>
    let (root, skipped) := target now message r
    ⟨writeTarget r root, skipped⟩)

end Crosswalk.Engine
