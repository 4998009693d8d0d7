/-
  Crosswalk.Route.Basic
  ──────────────────────────────────────
  **ROUTES.**

  A route says how the messages of one partner become canonical documents
  and how the replies go back: formats, the namespace and the root of the
  document, and for both directions a list of field mappings.

  `Route.validate` accepts a route when it has an id, and when the names and
  the URI that it puts into documents can stand there.
-/
import Crosswalk.Message.Format
import Crosswalk.Markup.Name

namespace Crosswalk

/-! ## §1. The parts of a route. -/

/-- Whether a route takes part. -/
inductive Mode
  | active
  | passive
  deriving DecidableEq, Repr

namespace Mode

/-- The tag of a mode. -/
def tag : Mode → Text
  | active => "ACTIVE".toList
  | passive => "PASSIVE".toList

/-- The mode with the tag; white space around it and the case of ASCII letters do not matter. -/
def ofTag? (s : Text) : Option Mode :=
  [active, passive].find? (fun m => m.tag = Text.upperAscii (Text.trim s))

end Mode

namespace Route

/-- How the partner is authenticated. -/
structure Auth where
  kind : Text
  key : Option Text
  deriving DecidableEq, Repr

/-- The namespace of the canonical document. -/
structure Space where
  uri : Option Text
  pre : Option Text
  /-- The prefix that the root gets in the end. -/
  rootPre : Option Text
  deriving DecidableEq, Repr

/-- How one field is carried over. -/
structure FieldMapping where
  source : Option Text
  target : Option Text
  /-- The expression that is applied to the value. -/
  transform : Option Text
  /-- The value of a field without one. -/
  fallback : Option Text
  deriving DecidableEq, Repr

/-- A mapping from one path to another. -/
def FieldMapping.between (source target : Text) : FieldMapping :=
  ⟨some source, some target, none, none⟩

/-- The expression, when it is more than white space. -/
def FieldMapping.expression? (f : FieldMapping) : Option Text :=
  f.transform.filter (fun t => !Text.blank t)

end Route

/-- A route. -/
structure Route where
  id : Text
  inbound : Option Format
  outbound : Option Format
  mode : Option Mode
  endpoint : Option Text
  auth : Option Route.Auth
  space : Option Route.Space
  rootName : Option Text
  request : List Route.FieldMapping
  response : List Route.FieldMapping
  deriving DecidableEq, Repr

namespace Route

/-- A route that says nothing. -/
def empty : Route :=
  ⟨[], none, none, none, none, none, none, none, [], []⟩

/-- The root of a document when the route names none. -/
def standardRoot : Text := "Document".toList

/-- The name of the root of the canonical document. -/
def root (r : Route) : Text :=
  ((r.rootName.map Text.trim).filter (fun n => !n.isEmpty)).getD standardRoot

/-- The URI of the namespace. -/
def uri? (r : Route) : Option Text :=
  r.space.bind Space.uri

/-- The route takes part. -/
def isActive (r : Route) : Bool :=
  r.mode == some .active

/-! ## §2. Validation. -/

/-- Why a route cannot be used. -/
inductive Flaw
  | noId
  | badRoot (id root : Text)
  /-- The prefix of the given field is no name. -/
  | badPrefix (id : Text) (field : String) (pre : Text)
  | blankUri (id : Text)
  deriving DecidableEq, Repr

/-- The wording of a flaw. -/
def Flaw.message : Flaw → Text
  | noId => "routeId must not be empty".toList
  | badRoot id root =>
    "route '".toList ++ id ++ "': rootElementName '".toList ++ root
      ++ "' is not a valid XML name".toList
  | badPrefix id field pre =>
    "route '".toList ++ id ++ "': namespace ".toList ++ field.toList ++ " '".toList ++ pre
      ++ "' is not a valid XML prefix".toList
  | blankUri id => "route '".toList ++ id ++ "': namespace uri must not be blank".toList

/-- A prefix may be absent or empty; otherwise it is a name. -/
def isPrefix? (pre : Option Text) : Bool :=
  pre.all (fun p => p.isEmpty || Markup.isName p)

/-- Checks the namespace of a route. -/
def checkSpace (id : Text) (s : Space) : Except Flaw Unit :=
  if !isPrefix? s.pre then .error (.badPrefix id "prefix" (s.pre.getD []))
  else if !isPrefix? s.rootPre then .error (.badPrefix id "rootElementPrefix" (s.rootPre.getD []))
  else if s.uri.any Text.blank then .error (.blankUri id)
  else .ok ()

/-- Checks a route. -/
def validate (r : Route) : Except Flaw Unit :=
  if Text.blank r.id then .error .noId
  else if !Markup.isName r.root then .error (.badRoot r.id r.root)
  else
    match r.space with
    | some s => checkSpace r.id s
    | none => .ok ()

end Route

end Crosswalk
