/-
  Crosswalk.Yaml.Decode
  ──────────────────────────────────────
  **FROM NODES TO VALUES.**

  A decoder goes along a node in the order of the text, so that of several
  errors the first one counts; where reading stopped it meets the fault.  An
  error of the wrong shape is placed at the node.  Errors that a decoder
  raises about values are placed at the mapping around them.
-/
import Crosswalk.Text.Quoted
import Crosswalk.Yaml.Document
import Crosswalk.Yaml.Scalar

namespace Crosswalk.Yaml

/-! ## §1. Errors. -/

/-- A step from a node to one within it. -/
inductive Step
  | key (name : Text)
  | index (n : Nat)
  /-- The value of a key that is no scalar. -/
  | unnamed
  deriving DecidableEq, Repr

/-- The steps from the root, the last one first. -/
abbrev Trail := List Step

/-- A trail as text: keys with points between them, indices in brackets. -/
def Trail.display : Trail → Text
  | [] => ['.']
  | .index n :: rest => Trail.display rest ++ '[' :: Text.ofNat n ++ [']']
  | [.key name] => name
  | .key name :: rest => Trail.display rest ++ '.' :: name
  | [.unnamed] => ['?']
  | .unnamed :: rest => Trail.display rest ++ ".?".toList

/-- What a node is, as errors call it. -/
inductive Found
  | sequence
  | mapping
  | null
  | bool (b : Bool)
  | integer (i : Int)
  | wideInteger (i : Int) (signed : Bool)
  | float (s : Text)
  | text (s : Text)
  deriving DecidableEq, Repr

/-- The wording of what was found. -/
def Found.message : Found → Text
  | sequence => "sequence".toList
  | mapping => "map".toList
  | null => "unit value".toList
  | bool b => "boolean `".toList ++ (if b then "true".toList else "false".toList) ++ ['`']
  | integer i => "integer `".toList ++ Text.ofInt i ++ ['`']
  | wideInteger i signed =>
    "integer `".toList ++ Text.ofInt i
      ++ (if signed then "` as i128".toList else "` as u128".toList)
  | float s => "floating point `".toList ++ s ++ ['`']
  | text s => "string ".toList ++ Text.quoted s

/-- What is wrong with a node. -/
inductive Mismatch
  /-- Its shape is another one. -/
  | shape (found : Found) (wanted : String)
  /-- Its tag does not fit. -/
  | value (found : Text) (wanted : String)
  /-- A key of a mapping stands there twice. -/
  | duplicate (key : String)
  /-- A mapping must have no other keys than these. -/
  | unknown (key : Text) (known : List String)
  /-- Its value means nothing. -/
  | meaningless (message : Text)
  deriving DecidableEq, Repr

/-- Keys to choose from, as errors list them. -/
def choice (keys : List String) : Text :=
  let quoted (k : String) : Text := '`' :: k.toList ++ ['`']
  match keys with
  | [] => "nothing".toList
  | [a] => quoted a
  | [a, b] => quoted a ++ " or ".toList ++ quoted b
  | _ => "one of ".toList ++ ", ".toList.intercalate (keys.map quoted)

/-- The wording of a mismatch. -/
def Mismatch.message : Mismatch → Text
  | shape found wanted =>
    "invalid type: ".toList ++ found.message ++ ", expected ".toList ++ wanted.toList
  | value found wanted =>
    "invalid value: string ".toList ++ Text.quoted found ++ ", expected ".toList ++ wanted.toList
  | duplicate key => "duplicate field `".toList ++ key.toList ++ ['`']
  | unknown key known => "unknown field `".toList ++ key ++ "`, expected ".toList ++ choice known
  | meaningless message => message

/-- Why a text has no value. -/
inductive Error
  /-- A character that may not stand in a text, at a byte offset. -/
  | character (offset : Nat)
  | stopped (s : Stop)
  /-- A mismatch that has no place yet. -/
  | loose (m : Mismatch)
  | placed (trail : Trail) (mark : Mark) (m : Mismatch)
  | severalDocuments
  /-- A node without an end. -/
  | unfinished
  deriving DecidableEq, Repr

namespace Error

/-- The wording of an error, with its place. -/
def message : Error → Text
  | character offset =>
    "control characters are not allowed".toList
      ++ (if offset = 0 then [] else " at position ".toList ++ Text.ofNat offset)
  | stopped (.fault f) => f.message
  | stopped (.unknownAnchor m) => "unknown anchor".toList ++ m.located
  | loose m => m.message
  | placed trail mark m =>
    (if trail.isEmpty then [] else trail.display ++ ": ".toList) ++ m.message ++ mark.located
  | severalDocuments =>
    "deserializing from YAML containing more than one document is not supported".toList
  | unfinished => "EOF while parsing a value".toList

/-- The place of an error. -/
def mark? : Error → Option Mark
  | character _ => some .zero
  | stopped (.fault f) => some f.mark
  | stopped (.unknownAnchor m) => some m
  | loose _ => none
  | placed _ m _ => some m
  | severalDocuments => none
  | unfinished => none

/-- The wording of an error with line and column at its end. -/
def report (e : Error) : Text :=
  e.message ++ match e.mark? with
    | none => []
    | some m =>
      " (line ".toList ++ Text.ofNat (m.line + 1) ++ ", column ".toList
        ++ Text.ofNat (m.column + 1) ++ [')']

end Error

/-! ## §2. Decoders. -/

/-- Where a decoder works: in a document, at a trail. -/
structure Site where
  document : Document
  trail : Trail
  deriving Repr

namespace Site

/-- The node that a reference stands for; any other node stands for itself. -/
def resolve (s : Site) : Node → Node
  | .reference n => s.document.anchors.node n
  | node => node

/-- Goes into a node. -/
def into (s : Site) (step : Step) : Site :=
  { s with trail := step :: s.trail }

/-- The error where reading stopped. -/
def stopped {α : Type} (s : Site) : Except Error α :=
  .error (match s.document.stop with
    | some stop => .stopped stop
    | none => .unfinished)

/-- A mismatch of the node at a mark. -/
def mismatch {α : Type} (s : Site) (mark : Mark) (m : Mismatch) : Except Error α :=
  .error (.placed s.trail mark m)

end Site

/-- A meaning, as errors call it. -/
def Found.ofMeaning (value : Text) : Meaning → Found
  | .null => .null
  | .bool b => .bool b
  | .integer i => .integer i
  | .wideInteger i signed => .wideInteger i signed
  | .float negative x =>
    .float ((if negative then ['-'] else []) ++ Number.Layout.positional.magnitude x)
  | .infinity negative => .float (if negative then "-inf".toList else "inf".toList)
  | .notANumber => .float "NaN".toList
  | .text => .text value

/-- The tag of the standard type with the name. -/
def standardTag (name : String) : Text :=
  ("tag:yaml.org,2002:" ++ name).toList

/-- What a scalar is, as errors call it, or the mismatch with its tag. -/
def foundScalar (tag : Option Text) (plain : Bool) (value : Text) : Except Mismatch Found :=
  let tagged (m : Option Meaning) (wanted : String) : Except Mismatch Found :=
    match m with
    | some m => .ok (.ofMeaning value m)
    | none => .error (.value value wanted)
  let untagged : Found := .ofMeaning value (meaning value)
  match tag with
  | none => .ok (if plain then untagged else .text value)
  | some t =>
    if t = standardTag "bool" then tagged ((bool? value).map .bool) "a boolean"
    else if t = standardTag "int" then tagged (integer? value) "an integer"
    else if t = standardTag "float" then tagged (float? value) "a float"
    else if t = standardTag "null" then
      tagged (if isNull value then some .null else none) "null"
    else .ok (if plain && t.head? == some '!' then untagged else .text value)

namespace Site

/-- The error that a node has another shape than the wanted one. -/
def wrongShape {α : Type} (s : Site) (node : Node) (wanted : String) : Except Error α :=
  match node with
  | .scalar mark tag plain value =>
    match foundScalar tag plain value with
    | .ok found => s.mismatch mark (.shape found wanted)
    | .error m => s.mismatch mark m
  | .sequence mark _ => s.mismatch mark (.shape .sequence wanted)
  | .mapping mark _ => s.mismatch mark (.shape .mapping wanted)
  | .reference _ => s.stopped
  | .missing => s.stopped

/-- A scalar, whatever it means. -/
def text (s : Site) (wanted : String) (node : Node) : Except Error Text :=
  match s.resolve node with
  | .scalar _ _ _ value => .ok value
  | other => s.wrongShape other wanted

/-- The node is absent: a plain null, or nothing at all. -/
def isAbsent (s : Site) (node : Node) : Except Error Bool :=
  match s.resolve node with
  | .scalar _ none plain value => .ok (plain && (value.isEmpty || isNull value))
  | .scalar _ (some tag) plain value =>
    if plain && tag = standardTag "null" then
      if isNull value then .ok true else .error (.loose (.value value "null"))
    else .ok false
  | _ => .ok false

/-- A value that may be absent. -/
def optional {α : Type} (s : Site) (decode : Node → Except Error α) (node : Node) :
    Except Error (Option α) := do
  if ← s.isAbsent node then return none
  return some (← decode node)

/-- The items of a sequence; nothing at all is an empty one. -/
def items {α : Type} (s : Site) (decode : Site → Node → Except Error α) (node : Node) :
    Except Error (List α) :=
  match s.resolve node with
  | .scalar mark tag plain value =>
    if plain && value.isEmpty then .ok []
    else s.wrongShape (.scalar mark tag plain value) "a sequence"
  | .sequence _ nodes => go 0 nodes
  | other => s.wrongShape other "a sequence"
where
  go (n : Nat) : List Node → Except Error (List α)
    | [] => .ok []
    | node :: rest => do
      let first ← decode (s.into (.index n)) node
      let others ← go (n + 1) rest
      return first :: others

end Site

mutual

/-- Reading did not stop within the node. -/
def Node.isWhole : Node → Bool
  | .scalar .. => true
  | .reference _ => true
  | .missing => false
  | .sequence _ items => Node.areWhole items
  | .mapping _ entries => Node.areWholeEntries entries

/-- Reading did not stop within the nodes. -/
def Node.areWhole : List Node → Bool
  | [] => true
  | n :: rest => n.isWhole && Node.areWhole rest

/-- Reading did not stop within the entries. -/
def Node.areWholeEntries : List (Node × Node) → Bool
  | [] => true
  | (k, v) :: rest => k.isWhole && v.isWhole && Node.areWholeEntries rest

end

/-- A key of a mapping, and what its value does to what is decoded. -/
structure KnownKey (α : Type) where
  key : String
  set : Site → Node → α → Except Error α

/-- A key whose value replaces something. -/
def KnownKey.of {α β : Type} (key : String) (decode : Site → Node → Except Error β)
    (put : β → α → α) : KnownKey α :=
  ⟨key, fun s node a => (decode s node).map (put · a)⟩

/-- What happens to keys that mean nothing. -/
inductive OtherKeys
  | ignored
  | refused
  deriving DecidableEq, Repr

namespace Site

/-- Decodes an entry with a key that means nothing.  Its value is not looked at, but reading must
not have stopped in it. -/
def otherEntry {α : Type} (s : Site) (others : OtherKeys) (fields : List (KnownKey α)) (key : Text)
    (node : Node) (a : α) : Except Error α :=
  match others with
  | .refused => .error (.loose (.unknown key (fields.map KnownKey.key)))
  | .ignored => if node.isWhole then .ok a else s.stopped

/-- Decodes the entries of a mapping one after the other; `seen` are the keys so far. -/
def recordEntries {α : Type} (s : Site) (others : OtherKeys) (fields : List (KnownKey α)) :
    (seen : List String) → α → List (Node × Node) → Except Error α
  | _, a, [] => .ok a
  | seen, a, (k, v) :: rest => do
    let name ← s.text "field identifier" k
    let step : Step := match k with
      | .reference _ => .unnamed
      | _ => .key name
    match fields.find? (fun f => f.key.toList = name) with
    | none =>
      let a ← s.otherEntry others fields name v a
      recordEntries s others fields seen a rest
    | some f =>
      if f.key ∈ seen then .error (.loose (.duplicate f.key))
      else
        let a ← f.set (s.into step) v a
        recordEntries s others fields (f.key :: seen) a rest

/-- Decodes a mapping with the given keys, each at most once; nothing at all is an empty mapping.
Errors without a place are placed at the mapping. -/
def record {α : Type} (s : Site) (wanted : String) (others : OtherKeys) (fields : List (KnownKey α))
    (start : α) (node : Node) : Except Error α :=
  match s.resolve node with
  | .scalar mark tag plain value =>
    if plain && value.isEmpty then .ok start
    else s.wrongShape (.scalar mark tag plain value) wanted
  | .mapping mark entries =>
    match s.recordEntries others fields [] start entries with
    | .ok a => .ok a
    | .error (.loose m) => s.mismatch mark m
    | .error e => .error e
  | other => s.wrongShape other wanted

end Site

/-! ## §3. Whole texts. -/

/-- Decodes the only document of a text.  A text without a document has an empty root. -/
def decode {α : Type} (root : Site → Node → Except Error α) (s : Text) : Except Error α :=
  match badOffset? s with
  | some offset => .error (.character offset)
  | none =>
    let d := Document.read s
    match root ⟨d, []⟩ (d.root.getD (.nothing .zero)) with
    | .error e => .error e
    | .ok a =>
      match d.stop with
      | some stop => .error (.stopped stop)
      | none => if d.more then .error .severalDocuments else .ok a

end Crosswalk.Yaml
