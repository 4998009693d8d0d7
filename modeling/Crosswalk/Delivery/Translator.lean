/-
  Crosswalk.Delivery.Translator
  ──────────────────────────────────────
  **TRANSLATING BY ROUTE, ENCRYPTING, FORWARDING.**

  A message is translated by the route with an id, which is loaded when it is
  not yet.  `deliver` goes on as a plan says:

    • a message that is to be forwarded nowhere is not translated at all,
    • the translation is encrypted when the plan asks for it,
    • what then is the message is forwarded when the plan asks for it.

  The clock is held fixed over a turn: it is looked at while a message is
  translated, and nowhere else.
-/
import Crosswalk.Catalog.Registry
import Crosswalk.Delivery.Partner
import Crosswalk.Engine.Reply

namespace Crosswalk.Delivery

open Catalog (Registry Renamed LoadError)
open Engine (Skipped Translated Unreadable)
open Storage (Disk)

/-! ## §1. Failures. -/

/-- Why a message was not translated, or not delivered. -/
inductive Failure
  /-- The route with the id cannot be loaded. -/
  | load (id : Text) (cause : LoadError)
  /-- The message cannot be read. -/
  | request (id : Text) (cause : Unreadable)
  /-- The reply to a message cannot be read. -/
  | reply (id : Text) (cause : Unreadable)
  /-- The plan asks for forwarding and has no endpoint. -/
  | noEndpoint (id : Text)
  | noEncryptor
  | noForwarder
  | encryption (reason : Text)
  | forwarding (endpoint reason : Text)
  deriving DecidableEq, Repr

/-- The wording of a failure. -/
def Failure.message : Failure → Text
  | load id _ => "Failed to load mapping for routeId: ".toList ++ id
  | request id _ => "Failed to translate request for routeId: ".toList ++ id
  | reply id _ => "Failed to translate response for routeId: ".toList ++ id
  | noEndpoint id =>
    "Invalid translation options: forwarding requested for routeId ".toList ++ id
      ++ " without an endpoint".toList
  | noEncryptor => "Encryption requested but no encryptor is configured".toList
  | noForwarder => "Forwarding requested but no forwarder is configured".toList
  | encryption reason => "Encryption failed: ".toList ++ reason
  | forwarding endpoint reason =>
    "Forwarding to ".toList ++ endpoint ++ " failed: ".toList ++ reason

/-! ## §2. Turns of a translator. -/

/-- What a translator did: the routes it has now, what it reported, what it gave. -/
structure Turn (α : Type) where
  registry : Registry
  renamed : List Renamed
  skipped : List Skipped
  result : Except Failure α

/-- Translates by the route with an id. -/
def translateBy (g : Registry) (d : Disk) (id : Text)
    (translate : Route → Except Failure Translated) : Turn Text :=
  let step := g.getOrLoad d id
  match step.loaded.result with
  | .error e => ⟨step.registry, step.loaded.renamed, [], .error (.load id e)⟩
  | .ok route =>
    match translate route with
    | .error e => ⟨step.registry, step.loaded.renamed, [], .error e⟩
    | .ok t => ⟨step.registry, step.loaded.renamed, t.skipped, .ok t.text⟩

/-- Translates a message by a route. -/
def requestBy (now : Calendar.Instant) (content : Text) (r : Route) :
    Except Failure Translated :=
  (Engine.request now content r).mapError (.request r.id)

/-- The format of a reply: the given one, that of the message, or JSON. -/
def replyFormat (format : Option Format) (r : Route) : Format :=
  (format.or r.inbound).getD .json

/-- Translates a message. -/
def request (g : Registry) (d : Disk) (now : Calendar.Instant) (content id : Text) : Turn Text :=
  translateBy g d id (requestBy now content)

/-- Translates the reply to a message. -/
def reply (g : Registry) (d : Disk) (now : Calendar.Instant) (content id : Text)
    (format : Option Format) : Turn Text :=
  translateBy g d id (fun r =>
    (Engine.reply now content r (replyFormat format r)).mapError (.reply id))

/-! ## §3. Delivery. -/

/-- What became of a message. -/
structure Receipt where
  /-- The message as it was last: translated, and encrypted if the plan says so. -/
  message : Text
  /-- The answer of the other side. -/
  response : Option Text
  /-- The message was forwarded. -/
  isForwarded : Bool
  deriving DecidableEq, Repr

/-- What was done with a translated message: the calls that were made, and how it ended. -/
structure Handling (α : Type) where
  calls : List Call
  result : Except Failure α

/-- Encrypts a translated message when the plan says so. -/
def encryptStage (partners : Partners) (p : Plan) (target : Text) : Handling Text :=
  if p.encrypt then
    match partners.encryptor with
    | none => ⟨[], .error .noEncryptor⟩
    | some encrypt =>
      let plaintext : Plaintext := ⟨target, p.cipher, p.key⟩
      ⟨[.encrypt plaintext], (encrypt plaintext).mapError .encryption⟩
  else ⟨[], .ok target⟩

/-- Forwards a message when the plan says so. -/
def forwardStage (partners : Partners) (p : Plan) (message : Text) : Handling Receipt :=
  if p.forward then
    match partners.forwarder with
    | none => ⟨[], .error .noForwarder⟩
    | some forward =>
      let parcel : Parcel :=
        ⟨p.endpoint.getD [], message, p.apiKey, p.connectTime, p.readTime⟩
      ⟨[.forward parcel],
        match forward parcel with
        | .ok response => .ok ⟨message, some response, true⟩
        | .error reason => .error (.forwarding parcel.endpoint reason)⟩
  else ⟨[], .ok ⟨message, none, false⟩⟩

/-- Encrypts and forwards a translated message as the plan says. -/
def handle (partners : Partners) (p : Plan) (target : Text) : Handling Receipt :=
  let encrypted := encryptStage partners p target
  match encrypted.result with
  | .error e => ⟨encrypted.calls, .error e⟩
  | .ok message =>
    let forwarded := forwardStage partners p message
    ⟨encrypted.calls ++ forwarded.calls, forwarded.result⟩

/-- The plan asks for forwarding and says where to, or does not ask. -/
def checkEndpoint (p : Plan) : Except Failure Unit :=
  if p.forward && p.endpoint?.isNone then .error (.noEndpoint p.route) else .ok ()

/-- A delivery: a turn of the translator with the calls that were made. -/
structure Delivered where
  turn : Turn Receipt
  calls : List Call

/-- Translates a message and does with it what the plan says. -/
def deliver (g : Registry) (d : Disk) (partners : Partners) (now : Calendar.Instant)
    (content : Text) (p : Plan) : Delivered :=
  let translated := translateBy g d p.route (fun r => do
    checkEndpoint p
    requestBy now content r)
  match translated.result with
  | .error e => ⟨{ translated with result := .error e }, []⟩
  | .ok target =>
    let handled := handle partners p target
    ⟨{ translated with result := handled.result }, handled.calls⟩

end Crosswalk.Delivery
