/-
  Crosswalk.Yaml.Node
  ──────────────────────────────────────
  **FROM TOKENS TO A TREE OF NODES.**

  A document is a tree of scalars, sequences and mappings.  A node may have
  an anchor, and a reference stands for the node with it.

  Reading may stop in the middle, at a fault or at a reference to nothing.
  What was read before is kept, and `missing` stands for the node at which
  it stopped: whoever walks the tree meets the fault there, and everything
  before it first.
-/
import Crosswalk.Yaml.Token

namespace Crosswalk.Yaml

/-! ## §1. Nodes. -/

/-- A node of a document. -/
inductive Node
  | scalar (mark : Mark) (tag : Option Text) (plain : Bool) (value : Text)
  | sequence (mark : Mark) (items : List Node)
  | mapping (mark : Mark) (entries : List (Node × Node))
  /-- The node with the anchor of this number. -/
  | reference (anchor : Nat)
  /-- Reading stopped before this node. -/
  | missing
  deriving Repr

/-- The scalar that stands where nothing is written. -/
def Node.nothing (m : Mark) : Node :=
  .scalar m none true []

/-! ## §2. Anchors. -/

/-- A node with an anchor. -/
structure Anchored where
  /-- The number of the anchor. -/
  number : Nat
  /-- The number of the mention. -/
  mention : Nat
  node : Node
  deriving Repr

/-- The anchors so far.  A new name gets the number of names before it.  A name that is used again
gets the number of all names, so the next new name takes its place. -/
structure Anchors where
  names : List (Text × Nat)
  nodes : List Anchored
  mentions : Nat
  deriving Repr

namespace Anchors

/-- No anchors. -/
def none : Anchors := ⟨[], [], 0⟩

/-- The number of the anchor that a name refers to. -/
def number? (a : Anchors) (name : Text) : Option Nat :=
  (a.names.find? (·.1 = name)).map (·.2)

/-- Adds a mention of an anchor; its node is still to come. -/
def mention (a : Anchors) (name : Text) : Anchors :=
  let number := a.names.length
  let names :=
    if (a.number? name).isSome then
      a.names.map (fun p => if p.1 = name then (name, number) else p)
    else a.names ++ [(name, number)]
  ⟨names, ⟨number, a.mentions, .missing⟩ :: a.nodes.filter (·.number ≠ number), a.mentions + 1⟩

/-- Gives a mention its node. -/
def complete (a : Anchors) (mention : Nat) (node : Node) : Anchors :=
  { a with
    nodes := a.nodes.map (fun n => if n.mention = mention then { n with node := node } else n) }

/-- The node with the anchor of a number. -/
def node (a : Anchors) (number : Nat) : Node :=
  ((a.nodes.find? (·.number = number)).map Anchored.node).getD .missing

end Anchors

/-! ## §3. Reading. -/

/-- Why reading stopped. -/
inductive Stop
  | fault (f : Fault)
  | unknownAnchor (m : Mark)
  deriving DecidableEq, Repr

/-- What is read from. -/
structure Input where
  tokens : List Token
  /-- The fault behind the tokens. -/
  ending : Option Fault
  anchors : Anchors
  /-- The meanings of handles. -/
  handles : List (Text × Text)
  deriving Repr

/-- A part of a document, what follows it, and possibly why nothing follows. -/
structure Part (α : Type) where
  value : α
  input : Input
  stop : Option Stop

namespace Input

/-- Goes on behind some tokens. -/
def goto (i : Input) (tokens : List Token) : Input :=
  { i with tokens := tokens }

/-- Stops with what was read, because of a fault. -/
def stopAt {α : Type} (i : Input) (value : α) (problem : Problem) (m : Mark)
    (context : Option (Context × Mark)) : Part α :=
  ⟨value, i, some (.fault ⟨problem, m, context⟩)⟩

/-- Stops with what was read, because no token is left. -/
def runOut {α : Type} (i : Input) (value : α) : Part α :=
  ⟨value, i, some (.fault (i.ending.getD ⟨.noContent, .zero, none⟩))⟩

end Input

/-- The anchor and the tag of a node. -/
structure Properties where
  anchor : Option Text
  tag : Option (Tag × Mark)
  deriving Repr

/-- Takes the anchor and the tag, in either order. -/
def takeProperties : List Token → Properties × List Token
  | ⟨.anchor a, _, _⟩ :: ⟨.tag t, m, _⟩ :: rest => (⟨some a, some (t, m)⟩, rest)
  | ⟨.tag t, m, _⟩ :: ⟨.anchor a, _, _⟩ :: rest => (⟨some a, some (t, m)⟩, rest)
  | ⟨.anchor a, _, _⟩ :: rest => (⟨some a, none⟩, rest)
  | ⟨.tag t, m, _⟩ :: rest => (⟨none, some (t, m)⟩, rest)
  | tokens => (⟨none, none⟩, tokens)

/-- The tag with its handle replaced by what that means. -/
def Input.resolveTag? (i : Input) (t : Tag) : Option Text :=
  if t.handle.isEmpty then some t.suffix
  else (i.handles.find? (·.1 = t.handle)).map (·.2 ++ t.suffix)

/-- The kinds of tokens before which a key or a value of a block is left out. -/
def endsBlockEntry (k : TokenKind) : Bool :=
  k == .key || k == .value || k == .blockEnd

mutual

/-- Reads a node.  In a `block` context it may be a block, and where sequences may be `loose` also
one without indentation. -/
def readNode : Nat → (block loose : Bool) → Input → Part Node
  | 0, _, _, i => i.runOut .missing
  | fuel + 1, block, loose, i =>
    match i.tokens with
    | [] => i.runOut .missing
    | ⟨.aliasName name, m, _⟩ :: rest =>
      match i.anchors.number? name with
      | some n => ⟨.reference n, i.goto rest, none⟩
      | none => ⟨.missing, i, some (.unknownAnchor m)⟩
    | first :: _ =>
      let (properties, tokens) := takeProperties i.tokens
      let start := first.start
      match tokens with
      | [] => i.runOut .missing
      | t :: _ =>
        let tag := properties.tag.bind (fun p => i.resolveTag? p.1)
        match properties.tag with
        | some (_, m) =>
          if tag.isNone then i.stopAt .missing .undefinedHandle m (some (.node, start))
          else readContent fuel block loose start properties tag t (i.goto tokens)
        | none => readContent fuel block loose start properties tag t (i.goto tokens)

/-- Reads what a node holds, from the token `t` on. -/
def readContent : Nat → (block loose : Bool) → Mark → Properties → Option Text → Token → Input →
    Part Node
  | 0, _, _, _, _, _, _, i => i.runOut .missing
  | fuel + 1, block, loose, start, properties, tag, t, i =>
    let mentioned : Input := match properties.anchor with
      | some name => { i with anchors := i.anchors.mention name }
      | none => i
    let number := i.anchors.mentions
    let completed (p : Part Node) : Part Node :=
      match properties.anchor with
      | some _ =>
        { p with input := { p.input with anchors := p.input.anchors.complete number p.value } }
      | none => p
    let sequence (p : Part (List Node)) : Part Node :=
      completed ⟨.sequence start p.value, p.input, p.stop⟩
    let mapping (p : Part (List (Node × Node))) : Part Node :=
      completed ⟨.mapping start p.value, p.input, p.stop⟩
    let behind := mentioned.goto (i.tokens.drop 1)
    if loose && t.kind == .blockEntry then sequence (readLooseItems fuel mentioned)
    else
      match t.kind with
      | .scalar plain s => completed ⟨.scalar start tag plain s, behind, none⟩
      | .flowSequenceStart => sequence (readFlowItems fuel t.start true behind)
      | .flowMappingStart => mapping (readFlowEntries fuel t.start true behind)
      | kind =>
        if block && kind == .blockSequenceStart then
          sequence (readBlockItems fuel t.start behind)
        else if block && kind == .blockMappingStart then
          mapping (readBlockEntries fuel t.start behind)
        else if properties.anchor.isSome || properties.tag.isSome then
          completed ⟨.scalar start tag true [], mentioned, none⟩
        else
          i.stopAt .missing .noContent t.start
            (some (if block then .blockNode else .flowNode, start))

/-- Reads the items of a block, each behind a dash. -/
def readBlockItems : Nat → Mark → Input → Part (List Node)
  | 0, _, i => i.runOut [.missing]
  | fuel + 1, start, i =>
    match i.tokens with
    | [] => i.runOut [.missing]
    | ⟨.blockEnd, _, _⟩ :: rest => ⟨[], i.goto rest, none⟩
    | ⟨.blockEntry, _, finish⟩ :: rest =>
      match rest with
      | [] => (i.goto rest).runOut [.missing]
      | t :: _ =>
        if t.kind == .blockEntry || t.kind == .blockEnd then
          let q := readBlockItems fuel start (i.goto rest)
          { q with value := .nothing finish :: q.value }
        else
          let p := readNode fuel true false (i.goto rest)
          match p.stop with
          | some s => ⟨[p.value], p.input, some s⟩
          | none =>
            let q := readBlockItems fuel start p.input
            { q with value := p.value :: q.value }
    | t :: _ => i.stopAt [.missing] .noDash t.start (some (.blockSequence, start))

/-- Reads the items of a sequence that is no deeper than the key before it. -/
def readLooseItems : Nat → Input → Part (List Node)
  | 0, i => i.runOut [.missing]
  | fuel + 1, i =>
    match i.tokens with
    | [] => i.runOut [.missing]
    | ⟨.blockEntry, _, finish⟩ :: rest =>
      match rest with
      | [] => (i.goto rest).runOut [.missing]
      | t :: _ =>
        if t.kind == .blockEntry || endsBlockEntry t.kind then
          let q := readLooseItems fuel (i.goto rest)
          { q with value := .nothing finish :: q.value }
        else
          let p := readNode fuel true false (i.goto rest)
          match p.stop with
          | some s => ⟨[p.value], p.input, some s⟩
          | none =>
            let q := readLooseItems fuel p.input
            { q with value := p.value :: q.value }
    | _ :: _ => ⟨[], i, none⟩

/-- Reads a key or a value of a block behind its sign, which ends at `finish`. -/
def readBlockEntry : Nat → Mark → Input → Part Node
  | 0, _, i => i.runOut .missing
  | fuel + 1, finish, i =>
    match i.tokens with
    | [] => i.runOut .missing
    | t :: _ =>
      if endsBlockEntry t.kind then ⟨.nothing finish, i, none⟩ else readNode fuel true true i

/-- Reads the value that belongs to a key of a block. -/
def readBlockValue : Nat → Input → Part Node
  | 0, i => i.runOut .missing
  | fuel + 1, i =>
    match i.tokens with
    | [] => i.runOut .missing
    | ⟨.value, _, finish⟩ :: rest => readBlockEntry fuel finish (i.goto rest)
    | t :: _ => ⟨.nothing t.start, i, none⟩

/-- Reads the entries of a block. -/
def readBlockEntries : Nat → Mark → Input → Part (List (Node × Node))
  | 0, _, i => i.runOut [(.missing, .missing)]
  | fuel + 1, start, i =>
    match i.tokens with
    | [] => i.runOut [(.missing, .missing)]
    | ⟨.blockEnd, _, _⟩ :: rest => ⟨[], i.goto rest, none⟩
    | ⟨.key, _, finish⟩ :: rest =>
      let k := readBlockEntry fuel finish (i.goto rest)
      match k.stop with
      | some s => ⟨[(k.value, .missing)], k.input, some s⟩
      | none =>
        let v := readBlockValue fuel k.input
        match v.stop with
        | some s => ⟨[(k.value, v.value)], v.input, some s⟩
        | none =>
          let q := readBlockEntries fuel start v.input
          { q with value := (k.value, v.value) :: q.value }
    | t :: _ => i.stopAt [(.missing, .missing)] .noKey t.start (some (.blockMapping, start))

/-- Reads the value that belongs to a key between braces or brackets, up to a comma or a token of
the kind `close`. -/
def readFlowValue : Nat → TokenKind → Input → Part Node
  | 0, _, i => i.runOut .missing
  | fuel + 1, close, i =>
    match i.tokens with
    | [] => i.runOut .missing
    | ⟨.value, _, _⟩ :: rest =>
      match rest with
      | [] => (i.goto rest).runOut .missing
      | t :: _ =>
        if t.kind == .flowEntry || t.kind == close then ⟨.nothing t.start, i.goto rest, none⟩
        else readNode fuel false false (i.goto rest)
    | t :: _ => ⟨.nothing t.start, i, none⟩

/-- Reads a single entry between brackets behind its question mark, or behind the place where one
was put in. -/
def readPair : Nat → Mark → Input → Part Node
  | 0, m, i => i.runOut (.mapping m [(.missing, .missing)])
  | fuel + 1, m, i =>
    match i.tokens with
    | [] => i.runOut (.mapping m [(.missing, .missing)])
    | t :: rest =>
      let k : Part Node :=
        if t.kind == .value || t.kind == .flowEntry || t.kind == .flowSequenceEnd then
          ⟨.nothing t.finish, i.goto rest, none⟩
        else readNode fuel false false i
      match k.stop with
      | some s => ⟨.mapping m [(k.value, .missing)], k.input, some s⟩
      | none =>
        let v := readFlowValue fuel .flowSequenceEnd k.input
        ⟨.mapping m [(k.value, v.value)], v.input, v.stop⟩

/-- Reads the items between brackets; the `first` one has no comma before it. -/
def readFlowItems : Nat → Mark → (first : Bool) → Input → Part (List Node)
  | 0, _, _, i => i.runOut [.missing]
  | fuel + 1, start, first, i =>
    match i.tokens with
    | [] => i.runOut [.missing]
    | ⟨.flowSequenceEnd, _, _⟩ :: rest => ⟨[], i.goto rest, none⟩
    | t :: rest =>
      if !first && t.kind != .flowEntry then
        i.stopAt [.missing] .noCommaOrBracket t.start (some (.flowSequence, start))
      else
        let tokens := if first then t :: rest else rest
        match tokens with
        | [] => (i.goto tokens).runOut [.missing]
        | ⟨.flowSequenceEnd, _, _⟩ :: rest => ⟨[], i.goto rest, none⟩
        | t :: rest =>
          let p :=
            if t.kind == .key then readPair fuel t.start (i.goto rest)
            else readNode fuel false false (i.goto tokens)
          match p.stop with
          | some s => ⟨[p.value], p.input, some s⟩
          | none =>
            let q := readFlowItems fuel start false p.input
            { q with value := p.value :: q.value }

/-- Reads the entries between braces; the `first` one has no comma before it. -/
def readFlowEntries : Nat → Mark → (first : Bool) → Input → Part (List (Node × Node))
  | 0, _, _, i => i.runOut [(.missing, .missing)]
  | fuel + 1, start, first, i =>
    match i.tokens with
    | [] => i.runOut [(.missing, .missing)]
    | ⟨.flowMappingEnd, _, _⟩ :: rest => ⟨[], i.goto rest, none⟩
    | t :: rest =>
      if !first && t.kind != .flowEntry then
        i.stopAt [(.missing, .missing)] .noCommaOrBrace t.start (some (.flowMapping, start))
      else
        let tokens := if first then t :: rest else rest
        match tokens with
        | [] => (i.goto tokens).runOut [(.missing, .missing)]
        | ⟨.flowMappingEnd, _, _⟩ :: rest => ⟨[], i.goto rest, none⟩
        | t :: rest =>
          let marked := t.kind == .key
          let k : Part Node :=
            if marked then
              match rest with
              | [] => (i.goto rest).runOut .missing
              | t :: _ =>
                if t.kind == .value || t.kind == .flowEntry || t.kind == .flowMappingEnd then
                  ⟨.nothing t.start, i.goto rest, none⟩
                else readNode fuel false false (i.goto rest)
            else readNode fuel false false (i.goto tokens)
          match k.stop with
          | some s => ⟨[(k.value, .missing)], k.input, some s⟩
          | none =>
            let v : Part Node :=
              if marked then readFlowValue fuel .flowMappingEnd k.input
              else
                match k.input.tokens with
                | [] => k.input.runOut .missing
                | t :: _ => ⟨.nothing t.start, k.input, none⟩
            match v.stop with
            | some s => ⟨[(k.value, v.value)], v.input, some s⟩
            | none =>
              let q := readFlowEntries fuel start false v.input
              { q with value := (k.value, v.value) :: q.value }

end

end Crosswalk.Yaml
