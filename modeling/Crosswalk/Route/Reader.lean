/-
  Crosswalk.Route.Reader
  ──────────────────────────────────────
  **READING ROUTES FROM YAML.**

  A route is a mapping; all its keys may be left out, and keys that mean
  nothing are passed over.  Formats and modes are given by their tags.
-/
import Crosswalk.Message.Basic
import Crosswalk.Route.Basic
import Crosswalk.Yaml.Decode

namespace Crosswalk.Route

open Yaml

/-! ## §1. Values. -/

/-- A text. -/
def readText (s : Site) : Node → Except Yaml.Error Text :=
  s.text "a string"

/-- A text that may be absent. -/
def readOptional (s : Site) : Node → Except Yaml.Error (Option Text) :=
  s.optional (readText s)

/-- A format by its tag. -/
def readFormat (s : Site) (node : Node) : Except Yaml.Error Format := do
  let tag ← readText s node
  match Message.formatOfTag tag with
  | .ok f => return f
  | .error e => throw (.loose (.meaningless e.message))

/-- The wording of an unknown mode. -/
def unknownMode (tag : Text) : Text :=
  "unknown mode '".toList ++ tag ++ ['\'']

/-- What is said before every complaint about a route. -/
def complaint (message : Text) : Text :=
  "Invalid route configuration: ".toList ++ message

/-- A mode by its tag. -/
def readMode (s : Site) (node : Node) : Except Yaml.Error Mode := do
  let tag ← readText s node
  match Mode.ofTag? tag with
  | some m => return m
  | none => throw (.loose (.meaningless (complaint (unknownMode tag))))

/-! ## §2. The parts of a route. -/

/-- A key with a text that may be absent. -/
def optionalText {α : Type} (key : String) (put : Option Text → α → α) : KnownKey α :=
  .of key readOptional put

/-- Authentication. -/
def readAuth (s : Site) (node : Node) : Except Yaml.Error Auth :=
  s.record "struct AuthConfig" .ignored
    [.of "type" readText (fun v a => { a with kind := v }),
      optionalText "key" (fun v a => { a with key := v })]
    ⟨[], none⟩ node

/-- The namespace. -/
def readSpace (s : Site) (node : Node) : Except Yaml.Error Space :=
  s.record "struct NamespaceConfig" .ignored
    [optionalText "uri" (fun v a => { a with uri := v }),
      optionalText "prefix" (fun v a => { a with pre := v }),
      optionalText "rootElementPrefix" (fun v a => { a with rootPre := v })]
    ⟨none, none, none⟩ node

/-- A field mapping. -/
def readMapping (s : Site) (node : Node) : Except Yaml.Error FieldMapping :=
  s.record "struct FieldMapping" .ignored
    [optionalText "from" (fun v a => { a with source := v }),
      optionalText "to" (fun v a => { a with target := v }),
      optionalText "transform" (fun v a => { a with transform := v }),
      optionalText "defaultValue" (fun v a => { a with fallback := v })]
    ⟨none, none, none, none⟩ node

/-- The field mappings of one direction. -/
def readDirection (s : Site) (node : Node) : Except Yaml.Error (List FieldMapping) :=
  s.items readMapping node

/-- The field mappings of both directions: those of requests and those of responses. -/
def readMappings (s : Site) (node : Node) :
    Except Yaml.Error (List FieldMapping × List FieldMapping) :=
  s.record "struct Mappings" .ignored
    [.of "request" readDirection (fun v a => (v, a.2)),
      .of "response" readDirection (fun v a => (a.1, v))]
    ([], []) node

/-! ## §3. Routes. -/

/-- The keys of a route. -/
def fields : List (KnownKey Route) :=
  [.of "routeId" readText (fun v r => { r with id := v }),
    .of "inboundFormat" (fun s => s.optional (readFormat s)) (fun v r => { r with inbound := v }),
    .of "outboundFormat" (fun s => s.optional (readFormat s)) (fun v r => { r with outbound := v }),
    .of "mode" (fun s => s.optional (readMode s)) (fun v r => { r with mode := v }),
    optionalText "endpoint" (fun v r => { r with endpoint := v }),
    .of "auth" (fun s => s.optional (readAuth s)) (fun v r => { r with auth := v }),
    .of "namespace" (fun s => s.optional (readSpace s)) (fun v r => { r with space := v }),
    optionalText "rootElementName" (fun v r => { r with rootName := v }),
    .of "mappings" readMappings (fun v r => { r with request := v.1, response := v.2 })]

/-- A route. -/
def readRoute (s : Site) (node : Node) : Except Yaml.Error Route :=
  s.record "struct MappingConfig" .ignored fields Route.empty node

/-- Reads a route from a YAML text. -/
def read (content : Text) : Except Yaml.Error Route :=
  Yaml.decode readRoute content

end Crosswalk.Route
