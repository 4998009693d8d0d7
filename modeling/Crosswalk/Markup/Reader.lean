/-
  Crosswalk.Markup.Reader
  ──────────────────────────────────────
  **FROM MARKUP TO A TREE.**

  A text is read piece by piece into a `Build`: the elements whose end tag is
  still to come, innermost first, and the root once it is complete.  Each
  open element keeps the bindings that are in scope inside it, so a prefix is
  resolved by the first binding of a list (`Scope`).

  Main definitions:

    • `Build.take`: what one piece does to the elements read so far,
    • `readFrom`: the rest of a text, from a given build,
    • `read`: a whole text, with faults placed by line and column.
-/
import Crosswalk.Markup.Tag

namespace Crosswalk.Markup

/-! ## §1. Bindings in scope. -/

/-- Namespace bindings, the innermost first. -/
abbrev Scope := List Namespace

/-- The innermost binding of a prefix. -/
def Scope.binding? (scope : Scope) (pre : Text) : Option Namespace :=
  List.find? (fun ns => ns.pre = pre) scope

/-- The URI bound to a prefix, empty when it is unbound. -/
def Scope.uri (scope : Scope) (pre : Text) : Text :=
  ((scope.binding? pre).map Namespace.uri).getD []

/-! ## §2. Faults. -/

/-- Why a text is no document. -/
inductive Cause
  | token (f : TokenFault)
  | tag (f : TagFault)
  | reference (f : ReferenceFault)
  /-- A prefix without a binding, on the tag with this name. -/
  | unboundPrefix (pre name : Text)
  /-- The innermost open element has another name. -/
  | mismatchedClose (expected found : Text)
  /-- No element is open. -/
  | unmatchedClose (found : Text)
  /-- A second element beside the root. -/
  | secondRoot (name : Text)
  /-- Text that is not blank beside the root. -/
  | textOutside
  /-- The text ends inside an element. -/
  | unclosed (name : Text)
  /-- The text ends without an element. -/
  | noRoot
  deriving DecidableEq, Repr

/-- The wording of a cause. -/
def Cause.message : Cause → Text
  | token f => f.message
  | tag f => f.message
  | reference f => f.message
  | unboundPrefix pre name =>
    "unbound namespace prefix '".toList ++ pre ++ "' on <".toList ++ name ++ ">".toList
  | mismatchedClose expected found =>
    "ill-formed document: expected `</".toList ++ expected ++ ">`, but `</".toList ++ found
      ++ ">` was found".toList
  | unmatchedClose found =>
    "ill-formed document: close tag `</".toList ++ found
      ++ ">` does not match any open tag".toList
  | secondRoot name =>
    "multiple root elements, <".toList ++ name ++ "> follows the document element".toList
  | textOutside => "text content outside the document element".toList
  | unclosed name =>
    "unexpected end of input, <".toList ++ name ++ "> is not closed".toList
  | noRoot => "no root element".toList

/-- Where a fault lies: before the text that is still ahead, or at the end of the whole text. -/
inductive Place
  | before (ahead : Text)
  | atEnd
  deriving DecidableEq, Repr

/-! ## §3. The elements read so far. -/

/-- An element whose end tag is still to come. -/
structure Frame where
  element : Element
  /-- The name as the start tag has it. -/
  name : Text
  /-- The bindings inside the element. -/
  scope : Scope
  deriving Repr

/-- The elements read so far. -/
structure Build where
  /-- The open elements, the innermost first. -/
  frames : List Frame
  /-- The root, once its end was read. -/
  root : Option Element
  deriving Repr

namespace Build

/-- Nothing read. -/
def initial : Build := ⟨[], none⟩

/-- The bindings at the place reached. -/
def scope (b : Build) : Scope :=
  match b.frames with
  | [] => []
  | f :: _ => f.scope

/-- Puts a complete element into its parent, or makes it the root. -/
def add (b : Build) (e : Element) : Except Cause Build :=
  match b.frames, b.root with
  | f :: fs, root => .ok ⟨{ f with element := f.element.addChild e } :: fs, root⟩
  | [], none => .ok ⟨[], some e⟩
  | [], some _ => .error (.secondRoot e.qualifiedName)

/-- Adds text to the innermost open element; outside of the root only white space may stand. -/
def addText (b : Build) (s : Text) : Except Cause Build :=
  match b.frames with
  | f :: fs => .ok ⟨{ f with element := f.element.appendText s } :: fs, b.root⟩
  | [] => if Text.blank s then .ok b else .error .textOutside

end Build

/-- Each binding once, in the order of the first mention. -/
def distinct : List Namespace → List Namespace
  | [] => []
  | ns :: rest => ns :: (distinct rest).filter (· ≠ ns)

/-- The element that a start tag opens in a scope, and the scope inside it. -/
def openElement (body : Text) (scope : Scope) : Except Cause Frame :=
  match tagAttributes body with
  | .error f => .error (.tag f)
  | .ok attrs =>
    let bindings := attrs.filterMap Attribute.binding?
    let inner := bindings.reverse ++ scope
    let (pre, name) := splitQualified (tagName body)
    let frame (ns : Option Namespace) : Frame :=
      ⟨{ name := name
         ns := ns
         decls := distinct (bindings.filter (fun b => some b ≠ ns && !b.uri.isEmpty))
         attrs := attrs.filter (fun a => a.binding?.isNone)
         children := []
         text := none }, tagName body, inner⟩
    match Scope.binding? inner pre with
    | some ns => .ok (frame (if ns.uri.isEmpty then none else some ns))
    | none =>
      if pre.isEmpty then .ok (frame none) else .error (.unboundPrefix pre (tagName body))

/-- The element as its end tag leaves it: blank text beside children does not count. -/
def Element.settled (e : Element) : Element :=
  if !e.children.isEmpty && (e.text.map Text.blank).getD false then { e with text := none } else e

/-- The name in an end tag, without the white space after it. -/
def closeName (body : Text) : Text :=
  if body.all isSpace then body else (body.reverse.dropWhile isSpace).reverse

/-- What one piece of markup does to the elements read so far. -/
def Build.take (b : Build) : Token → Except Cause Build
  | .aside => .ok b
  | .text raw =>
    match unescape raw with
    | .error f => .error (.reference f)
    | .ok s => b.addText s
  | .section s => b.addText s
  | .start body =>
    match openElement body b.scope with
    | .error c => .error c
    | .ok frame => .ok ⟨frame :: b.frames, b.root⟩
  | .empty body =>
    match openElement body b.scope with
    | .error c => .error c
    | .ok frame => b.add frame.element
  | .close body =>
    match b.frames with
    | [] => .error (.unmatchedClose (closeName body))
    | f :: fs =>
      if closeName body = f.name then Build.add ⟨fs, b.root⟩ f.element.settled
      else .error (.mismatchedClose f.name (closeName body))

/-- The root, when the text ends here. -/
def Build.finish (b : Build) : Except Cause Element :=
  match b.frames, b.root with
  | f :: _, _ => .error (.unclosed f.element.qualifiedName)
  | [], some root => .ok root
  | [], none => .error .noRoot

/-! ## §4. Whole texts. -/

/-- Reads the rest of a text into the elements read so far. -/
def readFrom (b : Build) (s : Text) : Except (Cause × Place) Element :=
  match h : scan s with
  | .done =>
    match b.finish with
    | .error c => .error (c, .atEnd)
    | .ok root => .ok root
  | .fault f ahead => .error (.token f, .before ahead)
  | .token t rest =>
    match b.take t with
    | .error c => .error (c, .before s)
    | .ok b =>
      have := length_lt_of_scan h
      readFrom b rest
termination_by s.length

/-- A text without the byte order mark at its front. -/
def dropMark (s : Text) : Text :=
  Text.dropLead [Char.ofNat 0xFEFF] s

/-- A cause with the line and the column it is reported at. -/
structure Fault where
  line : Nat
  column : Nat
  cause : Cause
  deriving DecidableEq, Repr

/-- The byte offset of a place.  The byte order mark does not count, the end of the text lies
behind all its bytes. -/
def Place.offset (content : Text) : Place → Nat
  | before ahead => Text.offsetOf (dropMark content) ahead
  | atEnd => Text.byteSize content

/-- Reads a document: the tree of its root element. -/
def read (content : Text) : Except Fault Element :=
  match readFrom .initial (dropMark content) with
  | .ok root => .ok root
  | .error (cause, place) =>
    let (line, column) := Text.lineColumn (Text.bytes content) (place.offset content)
    .error ⟨line, column, cause⟩

end Crosswalk.Markup
