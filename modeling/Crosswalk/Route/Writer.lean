/-
  Crosswalk.Route.Writer
  ──────────────────────────────────────
  **WRITING ROUTES AS YAML.**

  What is absent is left out; the id, both lists of mappings and the kind of
  authentication are always there.
-/
import Crosswalk.Route.Basic
import Crosswalk.Yaml.Writer

namespace Crosswalk.Route

open Yaml (Value)

/-- The entry of a key with a text, when there is one. -/
def textEntry (key : String) (s : Option Text) : List (String × Value) :=
  (s.map (fun s => (key, Value.text s))).toList

/-- Authentication as a value. -/
def Auth.toValue (a : Auth) : Value :=
  .mapping (("type", .text a.kind) :: textEntry "key" a.key)

/-- A namespace as a value. -/
def Space.toValue (s : Space) : Value :=
  .mapping (textEntry "uri" s.uri ++ textEntry "prefix" s.pre
    ++ textEntry "rootElementPrefix" s.rootPre)

/-- A field mapping as a value. -/
def FieldMapping.toValue (f : FieldMapping) : Value :=
  .mapping (textEntry "from" f.source ++ textEntry "to" f.target
    ++ textEntry "transform" f.transform ++ textEntry "defaultValue" f.fallback)

/-- The field mappings of both directions as a value. -/
def mappingsValue (r : Route) : Value :=
  .mapping [("request", .sequence (r.request.map FieldMapping.toValue)),
    ("response", .sequence (r.response.map FieldMapping.toValue))]

/-- A route as a value. -/
def toValue (r : Route) : Value :=
  .mapping (("routeId", .text r.id)
    :: textEntry "inboundFormat" (r.inbound.map Format.tag)
    ++ textEntry "outboundFormat" (r.outbound.map Format.tag)
    ++ textEntry "mode" (r.mode.map Mode.tag)
    ++ textEntry "endpoint" r.endpoint
    ++ (r.auth.map (fun a => ("auth", a.toValue))).toList
    ++ (r.space.map (fun s => ("namespace", s.toValue))).toList
    ++ textEntry "rootElementName" r.rootName
    ++ [("mappings", r.mappingsValue)])

/-- The YAML text of a route. -/
def write (r : Route) : Text :=
  r.toValue.write

end Crosswalk.Route
