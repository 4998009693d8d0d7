/-
  Crosswalk.Yaml.Document
  ──────────────────────────────────────
  **WHOLE YAML TEXTS.**

  A text holds documents, each with directives before it and signs around
  it.  Only the first one is read into a tree; of what follows it matters
  only that there is something.
-/
import Crosswalk.Yaml.Node

namespace Crosswalk.Yaml

/-! ## §1. Directives. -/

/-- The handles that always have a meaning. -/
def standardHandles : List (Text × Text) :=
  [("!".toList, "!".toList), ("!!".toList, "tag:yaml.org,2002:".toList)]

/-- The directives seen before a document. -/
structure Preamble where
  versioned : Bool
  handles : List (Text × Text)
  deriving Repr

/-- Takes one directive. -/
def Preamble.take (p : Preamble) (d : Directive) : Except Problem Preamble :=
  match d with
  | .version major minor =>
    if p.versioned then .error .duplicateVersion
    else if major = 1 ∧ (minor = 1 ∨ minor = 2) then .ok { p with versioned := true }
    else .error .unsupportedVersion
  | .handle handle uri =>
    if p.handles.any (·.1 = handle) then .error .duplicateHandle
    else .ok { p with handles := p.handles ++ [(handle, uri)] }

/-- Takes the directives at the front; gives the tokens behind them, or the fault. -/
def takeDirectives (p : Preamble) : List Token → Except Fault (Preamble × List Token)
  | ⟨.directive d, m, _⟩ :: rest =>
    match p.take d with
    | .error problem => .error ⟨problem, m, none⟩
    | .ok p => takeDirectives p rest
  | tokens => .ok (p, tokens)

/-! ## §2. Documents. -/

/-- The first document of a text. -/
structure Document where
  /-- The root; nothing in a text without a document. -/
  root : Option Node
  anchors : Anchors
  /-- Why reading stopped in or behind the root. -/
  stop : Option Stop
  /-- More follows behind the document. -/
  more : Bool
  deriving Repr

/-- The document in which nothing was read. -/
def Document.stopped (s : Stop) : Document :=
  ⟨some .missing, .none, some s, false⟩

/-- A document ends here, and so does its root when it was left out. -/
def endsDocument (k : TokenKind) : Bool :=
  match k with
  | .directive _ => true
  | .documentStart => true
  | .documentEnd => true
  | .streamEnd => true
  | _ => false

/-- Something follows the document. -/
def hasMore (tokens : List Token) : Bool :=
  let behind : List Token := match tokens with
    | ⟨.documentEnd, _, _⟩ :: rest =>
      rest.dropWhile (fun t => t.kind == .documentEnd)
    | _ => tokens
  match behind with
  | ⟨.streamEnd, _, _⟩ :: _ => false
  | _ => true

/-- How often reading may descend into the tokens. -/
def depthFor (tokens : List Token) : Nat :=
  4 * tokens.length + 8

/-- The document whose root was read. -/
def Document.ofPart (p : Part Node) : Document :=
  match p.stop with
  | some s => ⟨some p.value, p.input.anchors, some s, false⟩
  | none =>
    match p.input.tokens with
    | [] => ⟨some p.value, p.input.anchors, (p.input.runOut ()).stop, false⟩
    | tokens => ⟨some p.value, p.input.anchors, none, hasMore tokens⟩

/-- Reads the root of a document that has a sign before it. -/
def readExplicit (i : Input) : Document :=
  match i.tokens with
  | [] => .ofPart (i.runOut .missing)
  | t :: _ =>
    if endsDocument t.kind then .ofPart ⟨.nothing t.start, i, none⟩
    else .ofPart (readNode (depthFor i.tokens) true false i)

/-- Reads the first document from the tokens of a text and the fault behind them. -/
def Document.ofTokens (tokens : List Token) (ending : Option Fault) : Document :=
  let i : Input := ⟨tokens, ending, .none, standardHandles⟩
  match tokens with
  | [] => .ofPart (i.runOut .missing)
  | ⟨.streamEnd, _, _⟩ :: _ => ⟨none, .none, none, false⟩
  | t :: _ =>
    if endsDocument t.kind && t.kind != .documentEnd then
      match takeDirectives ⟨false, []⟩ tokens with
      | .error f => .stopped (.fault f)
      | .ok (_, []) => .ofPart (i.runOut .missing)
      | .ok (p, t :: rest) =>
        if t.kind == .documentStart then
          readExplicit { i with tokens := rest, handles := p.handles ++ standardHandles }
        else .stopped (.fault ⟨.noDocumentStart, t.start, none⟩)
    else .ofPart (readNode (depthFor tokens) true false i)

/-- Reads the first document of a text of allowed characters. -/
def Document.read (s : Text) : Document :=
  let (made, ending) := tokens (uniformBreaks s)
  .ofTokens made ending

end Crosswalk.Yaml
