/-
  Crosswalk.Message.Format
  ──────────────────────────────────────
  **THE FORMATS OF MESSAGES.**

  A format is known by its tag.  Tags are read without regard to white space
  around them and to the case of ASCII letters, and are written in capitals.
-/
import Crosswalk.Text.Basic

namespace Crosswalk

/-- What a message is written in. -/
inductive Format
  | json
  | soap
  | xml
  /-- Markup of the house's own vocabulary; it is read like any other markup. -/
  | vendorXml
  deriving DecidableEq, Repr

namespace Format

/-- The tag of a format. -/
def tag : Format → Text
  | json => "JSON".toList
  | soap => "SOAP".toList
  | xml => "XML".toList
  | vendorXml => "PROPRIETARY_XML".toList

/-- All formats. -/
def all : List Format := [json, soap, xml, vendorXml]

/-- The format with the tag. -/
def ofTag? (s : Text) : Option Format :=
  all.find? (fun f => f.tag = Text.upperAscii (Text.trim s))

end Format

end Crosswalk
