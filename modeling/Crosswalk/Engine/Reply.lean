/-
  Crosswalk.Engine.Reply
  ──────────────────────────────────────
  **FROM THE CANONICAL REPLY BACK TO THE PARTNER.**

  The reply is markup.  Its fields are carried over into an object of JSON,
  or into a document without a namespace.  In an object the points of a path
  lead through further objects, which are made where they are missing; a path
  through anything else is a conflict, and changes nothing.

  As for a request, the clock is held fixed: all fields see one instant.
-/
import Crosswalk.Engine.Request

namespace Crosswalk.Engine

open Route (FieldMapping)

/-! ## §1. Values. -/

/-- The field of a reply: a slash path, or with points and without slashes a dot path. -/
def replyField? (reply : Markup.Element) (source : Text) : Option Text :=
  match Text.after? Path.constantMark source with
  | some literal => some literal
  | none =>
    let path := Text.dropLead Path.targetMark source
    if '/' ∈ path ∨ '.' ∉ path then Path.slashField? reply path
    else Path.field? (.markup reply) path

/-- The value that a mapping gives to its target.  Without a value its expression is not used. -/
def replyValue (now : Calendar.Instant) (reply : Markup.Element) (f : FieldMapping) :
    Except Transform.Fault (Option Text) :=
  match (f.source.bind (replyField? reply)).or f.fallback, f.expression? with
  | some value, some e => Transform.Setting.apply ⟨now, some value, some (.markup reply)⟩ e
  | value, _ => .ok value

/-! ## §2. Objects. -/

/-- The members of an object. -/
abbrev Members := List (Text × Json)

/-- Puts a text at the end of a path of keys.  Fails with the key of the first value on the way
that is no object. -/
def putMember (value : Text) : List Text → Members → Except Text Members
  | [], members => .ok members
  | [key], members => .ok (Json.insert key (.string value) members)
  | key :: next :: rest, members =>
    match Json.member? key members with
    | none => (putMember value (next :: rest) []).map (fun m => Json.insert key (.object m) members)
    | some (.object inner) =>
      (putMember value (next :: rest) inner).map (fun m => Json.insert key (.object m) members)
    | some _ => .error key

/-- Carries one field over into an object. -/
def applyJsonReply (route : Text) (now : Calendar.Instant) (reply : Markup.Element)
    (members : Members) (f : FieldMapping) : Members × Option FieldError :=
  match replyValue now reply f, f.target with
  | .error fault, _ => (members, some (.transform fault))
  | .ok (some value), some path =>
    match putMember value (path.splitOn '.') members with
    | .ok next => (next, none)
    | .error part => (members, some (.conflict route part path))
  | .ok _, _ => (members, none)

/-- The reply as a text of JSON. -/
def jsonReply (now : Calendar.Instant) (reply : Markup.Element) (r : Route) : Translated :=
  let (members, skipped) := runFields r.id (applyJsonReply r.id now reply) 0 [] r.response
  ⟨(Json.object members).write, skipped⟩

/-! ## §3. Documents. -/

/-- The root of a reply when its first mapping names none. -/
def standardReplyRoot : Text := "Response".toList

/-- The name of the root of a reply: the first segment of the first target with a `source.`. -/
def replyRoot (r : Route) : Text :=
  let segment :=
    (((r.response.head?.bind FieldMapping.target).bind (Text.after? Path.sourceMark)).map
      (fun rest => Text.trim (rest.takeWhile (· != '.'))))
  (segment.filter (fun name => !name.isEmpty)).getD standardReplyRoot

/-- Carries one field over into the document of a reply. -/
def applyMarkupReply (now : Calendar.Instant) (reply : Markup.Element) (root : Markup.Element)
    (f : FieldMapping) : Markup.Element × Option FieldError :=
  setField f.target (replyValue now reply f) root

/-- The reply as a document. -/
def markupReply (now : Calendar.Instant) (reply : Markup.Element) (r : Route) : Translated :=
  let (root, skipped) :=
    runFields r.id (applyMarkupReply now reply) 0 (.bare (replyRoot r) none) r.response
  ⟨Markup.write root, skipped⟩

/-! ## §4. Replies. -/

/-- Reads the reply to a message of a route. -/
def readReply (content : Text) (r : Route) : Except Unreadable Markup.Element :=
  (Message.readMarkup .xml content).mapError (⟨r.id, ·⟩)

/-- Translates the reply to a message of a route, while the clock shows `now`. -/
def reply (now : Calendar.Instant) (content : Text) (r : Route) (format : Format) :
    Except Unreadable Translated :=
  (readReply content r).map (fun reply =>
    match format with
    | .json => jsonReply now reply r
    | _ => markupReply now reply r)

end Crosswalk.Engine
