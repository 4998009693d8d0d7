/-
  Crosswalk.Message.Basic
  ──────────────────────────────────────
  **READING MESSAGES OF ANY FORMAT.**

  A message is an object of JSON or a tree of markup.  `Message.read` reads a
  text in a given format:

    • a JSON text must hold an object,
    • the root of a SOAP text must be an envelope, and the message is the
      first element in its body; without one it is the envelope,
    • all other markup is taken as it is.
-/
import Crosswalk.Json.Reader
import Crosswalk.Json.Writer
import Crosswalk.Markup.Reader
import Crosswalk.Markup.Writer
import Crosswalk.Message.Format

namespace Crosswalk

/-- A message that was read. -/
inductive Message
  | json (value : Json)
  | markup (root : Markup.Element)
  deriving Repr, BEq

namespace Message

/-! ## §1. Faults. -/

/-- Why a text is no message of its format. -/
inductive Cause
  | json (f : Json.Fault)
  /-- The JSON value is something else than an object. -/
  | notObject (kind : Text)
  | markup (c : Markup.Cause)
  /-- The root of a SOAP message has another name. -/
  | notEnvelope (root : Text)
  deriving DecidableEq, Repr

/-- The wording of a cause. -/
def Cause.message : Cause → Text
  | json f => f.message
  | notObject kind => "expected a JSON object at the top level, found ".toList ++ kind
  | markup c => c.message
  | notEnvelope root => "expected SOAP Envelope root, found <".toList ++ root ++ ['>']

/-- Why a message could not be read. -/
inductive ReadError
  | malformed (format : Format) (line column : Nat) (cause : Cause)
  | unsupported (tag : Text)
  deriving DecidableEq, Repr

/-- The wording of a read error. -/
def ReadError.message : ReadError → Text
  | malformed format line column cause =>
    "Failed to parse ".toList ++ format.tag ++ " at line ".toList ++ Text.ofNat line
      ++ ", col ".toList ++ Text.ofNat column ++ ": ".toList ++ cause.message
  | unsupported tag => "Unsupported format: ".toList ++ tag

/-! ## §2. Reading. -/

/-- The format with the tag, or the error that there is none. -/
def formatOfTag (tag : Text) : Except ReadError Format :=
  match Format.ofTag? tag with
  | some f => .ok f
  | none => .error (.unsupported tag)

/-- Reads an object of JSON. -/
def readJson (content : Text) : Except ReadError Json :=
  match Json.read content with
  | .error f => .error (.malformed .json f.line f.column (.json f))
  | .ok (.object members) => .ok (.object members)
  | .ok v => .error (.malformed .json 1 1 (.notObject v.kind))

/-- Reads markup as a message of the given format. -/
def readMarkup (format : Format) (content : Text) : Except ReadError Markup.Element :=
  match Markup.read content with
  | .error f => .error (.malformed format f.line f.column (.markup f.cause))
  | .ok root => .ok root

/-- The first element in the body of an envelope. -/
def payload? (envelope : Markup.Element) : Option Markup.Element :=
  (envelope.childLocal? "Body".toList).bind (·.children.head?)

/-- Reads the payload of a SOAP envelope, or the envelope when it has none. -/
def readSoap (content : Text) : Except ReadError Markup.Element :=
  match readMarkup .soap content with
  | .error e => .error e
  | .ok root =>
    if root.matchesLocal "Envelope".toList then .ok ((payload? root).getD root)
    else .error (.malformed .soap 1 1 (.notEnvelope root.qualifiedName))

/-- Reads a message. -/
def read (format : Format) (content : Text) : Except ReadError Message :=
  match format with
  | .json => (readJson content).map json
  | .soap => (readSoap content).map markup
  | .xml => (readMarkup .xml content).map markup
  | .vendorXml => (readMarkup .vendorXml content).map markup

/-! ## §3. Writing. -/

/-- The text of a message: JSON with a line per item, markup as a document. -/
def write : Message → Text
  | json value => value.writePretty
  | markup root => Markup.write root

end Message

end Crosswalk
