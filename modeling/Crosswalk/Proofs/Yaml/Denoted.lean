/-
  Crosswalk.Proofs.Yaml.Denoted
  ──────────────────────────────────────
  **THE NODES OF A WRITTEN VALUE.**

  The tokens of a written value are read as a node of the same structure
  (`Denotes`), and a text that is a plain scalar means a text.

    • `readsAs_item`, `readsAs_behindKey`: one value, by induction on it,
    • `Document.ofTokens_write`: the document of a whole text.
-/
import Crosswalk.Proofs.Yaml.Written
import Crosswalk.Yaml.Document

namespace Crosswalk.Yaml

variable {s : Text} {i : Input} {t : Token} {part more : List Token} {fuel : Nat}
  {block loose : Bool} {start : Mark}

/-! ## §1. What a node denotes. -/

mutual

/-- The node has the structure of the value. -/
def Denotes : Value → Node → Prop
  | .text s, n => ∃ m plain, n = .scalar m none plain s ∧ (plain = true → meaning s = .text)
  | .sequence vs, n => ∃ m nodes, n = .sequence m nodes ∧ DenoteItems vs nodes
  | .mapping es, n => ∃ m entries, n = .mapping m entries ∧ DenoteEntries es entries

/-- The nodes have the structures of the values. -/
def DenoteItems : List Value → List Node → Prop
  | [], nodes => nodes = []
  | v :: vs, nodes => ∃ n rest, nodes = n :: rest ∧ Denotes v n ∧ DenoteItems vs rest

/-- The nodes of the keys are those keys, and those of the values have their structures. -/
def DenoteEntries : List (String × Value) → List (Node × Node) → Prop
  | [], entries => entries = []
  | (k, v) :: es, entries =>
    ∃ m n rest, entries = (.scalar m none true k.toList, n) :: rest ∧ Denotes v n
      ∧ DenoteEntries es rest

end

/-! ## §2. The token at the front. -/

/-- The kinds of tokens that a written node begins with. -/
inductive StartsNode : TokenKind → Prop
  | scalar (plain : Bool) (s : Text) : StartsNode (.scalar plain s)
  | flowSequence : StartsNode .flowSequenceStart
  | flowMapping : StartsNode .flowMappingStart
  | blockSequence : StartsNode .blockSequenceStart
  | blockMapping : StartsNode .blockMappingStart
  | entry : StartsNode .blockEntry

theorem StartsNode.endsBlockEntry_eq {k : TokenKind} (h : StartsNode k) :
    endsBlockEntry k = false := by
  cases h with
  | scalar plain s => rfl
  | flowSequence => rfl
  | flowMapping => rfl
  | blockSequence => rfl
  | blockMapping => rfl
  | entry => rfl

theorem StartsNode.ne_blockEnd {k : TokenKind} (h : StartsNode k) : k ≠ .blockEnd := by
  rintro rfl
  cases h

/-- A written node has neither an anchor nor a tag. -/
theorem readNode_start (h : StartsNode t.kind) (htokens : i.tokens = t :: more) :
    readNode (fuel + 1) block loose i
      = readContent fuel block loose t.start ⟨none, none⟩ none t i := by
  obtain ⟨tokens, ending, anchors, handles⟩ := i
  obtain rfl : tokens = t :: more := htokens
  obtain ⟨kind, first, last⟩ := t
  rw [readNode]
  cases h with
  | scalar plain s => rfl
  | flowSequence => rfl
  | flowMapping => rfl
  | blockSequence => rfl
  | blockMapping => rfl
  | entry => rfl

theorem readContent_scalar {plain : Bool} (h : t.kind = .scalar plain s)
    (htokens : i.tokens = t :: more) :
    readContent (fuel + 1) block loose start ⟨none, none⟩ none t i
      = ⟨.scalar start none plain s, i.goto more, none⟩ := by
  rw [readContent]
  simp only [h, htokens]
  cases loose with
  | true => rfl
  | false => rfl

theorem readContent_flowSequence {a b : Token} (ha : a.kind = .flowSequenceStart)
    (hb : b.kind = .flowSequenceEnd) (htokens : i.tokens = a :: b :: more) :
    readContent (fuel + 2) block loose start ⟨none, none⟩ none a i
      = ⟨.sequence start [], i.goto more, none⟩ := by
  obtain ⟨kind, first, last⟩ := b
  obtain rfl : kind = .flowSequenceEnd := hb
  rw [readContent]
  simp only [ha, htokens]
  cases loose with
  | true => rfl
  | false => rfl

theorem readContent_flowMapping {a b : Token} (ha : a.kind = .flowMappingStart)
    (hb : b.kind = .flowMappingEnd) (htokens : i.tokens = a :: b :: more) :
    readContent (fuel + 2) block loose start ⟨none, none⟩ none a i
      = ⟨.mapping start [], i.goto more, none⟩ := by
  obtain ⟨kind, first, last⟩ := b
  obtain rfl : kind = .flowMappingEnd := hb
  rw [readContent]
  simp only [ha, htokens]
  cases loose with
  | true => rfl
  | false => rfl

theorem readContent_blockSequence (h : t.kind = .blockSequenceStart)
    (htokens : i.tokens = t :: more) {nodes : List Node} {rest : List Token}
    (hitems : readBlockItems fuel t.start (i.goto more) = ⟨nodes, i.goto rest, none⟩) :
    readContent (fuel + 1) true loose start ⟨none, none⟩ none t i
      = ⟨.sequence start nodes, i.goto rest, none⟩ := by
  rw [readContent]
  simp only [h, htokens, List.drop_one, List.tail_cons, hitems]
  cases loose with
  | true => rfl
  | false => rfl

theorem readContent_blockMapping (h : t.kind = .blockMappingStart)
    (htokens : i.tokens = t :: more) {entries : List (Node × Node)} {rest : List Token}
    (hentries : readBlockEntries fuel t.start (i.goto more) = ⟨entries, i.goto rest, none⟩) :
    readContent (fuel + 1) true loose start ⟨none, none⟩ none t i
      = ⟨.mapping start entries, i.goto rest, none⟩ := by
  rw [readContent]
  simp only [h, htokens, List.drop_one, List.tail_cons, hentries]
  cases loose with
  | true => rfl
  | false => rfl

/-- A sequence that is no deeper than the key before it. -/
theorem readContent_loose (h : t.kind = .blockEntry) {nodes : List Node} {rest : List Token}
    (hitems : readLooseItems fuel i = ⟨nodes, i.goto rest, none⟩) :
    readContent (fuel + 1) block true start ⟨none, none⟩ none t i
      = ⟨.sequence start nodes, i.goto rest, none⟩ := by
  rw [readContent]
  simp only [h, hitems]
  rfl

/-! ## §3. Parts of collections. -/

/-- The end of a block. -/
theorem readBlockItems_end {fuel : Nat} (h : t.kind = .blockEnd) (htokens : i.tokens = t :: more) :
    readBlockItems (fuel + 1) start i = ⟨[], i.goto more, none⟩ := by
  obtain ⟨kind, first, last⟩ := t
  obtain rfl : kind = .blockEnd := h
  rw [readBlockItems]
  simp only [htokens]

/-- Behind a dash the reader takes one node, and then goes on with the other items. -/
def TakesItem (read : Nat → Input → Part (List Node)) : Prop :=
  ∀ {fuel : Nat} {i : Input} {t first : Token} {more rest rest' : List Token} {node : Node}
    {nodes : List Node}, t.kind = .blockEntry → StartsNode first.kind → first.kind ≠ .blockEntry →
      i.tokens = t :: first :: more →
      readNode fuel true false (i.goto (first :: more)) = ⟨node, i.goto rest, none⟩ →
      read fuel (i.goto rest) = ⟨nodes, i.goto rest', none⟩ →
      read (fuel + 1) i = ⟨node :: nodes, i.goto rest', none⟩

theorem takesItem_block (start : Mark) : TakesItem (readBlockItems · start) := by
  intro fuel i t first more rest rest' node nodes ht hstarts hfirst htokens hnode hnodes
  obtain ⟨kind, a, b⟩ := t
  obtain rfl : kind = .blockEntry := ht
  dsimp only at hnodes ⊢
  rw [readBlockItems]
  simp only [htokens, beq_eq_false_iff_ne.mpr hfirst, beq_eq_false_iff_ne.mpr hstarts.ne_blockEnd,
    hnode, hnodes, Bool.or_self, Bool.false_eq_true, if_false]

/-- The end of a sequence that is no deeper than the key before it. -/
theorem readLooseItems_end {fuel : Nat} (h : t.kind ≠ .blockEntry) (htokens : i.tokens = t :: more) :
    readLooseItems (fuel + 1) i = ⟨[], i.goto (t :: more), none⟩ := by
  obtain ⟨tokens, ending, anchors, handles⟩ := i
  obtain rfl : tokens = t :: more := htokens
  obtain ⟨kind, first, last⟩ := t
  rw [readLooseItems]
  split
  · rename_i heq
    cases heq
  · rename_i heq
    obtain ⟨hkind, -⟩ := List.cons.inj heq
    exact absurd (congrArg Token.kind hkind) h
  · rfl

theorem takesItem_loose : TakesItem readLooseItems := by
  intro fuel i t first more rest rest' node nodes ht hstarts hfirst htokens hnode hnodes
  obtain ⟨kind, a, b⟩ := t
  obtain rfl : kind = .blockEntry := ht
  rw [readLooseItems]
  simp only [htokens, beq_eq_false_iff_ne.mpr hfirst, hstarts.endsBlockEntry_eq, hnode, hnodes,
    Bool.or_self, Bool.false_eq_true, if_false]

/-- The end of a block of entries. -/
theorem readBlockEntries_end {fuel : Nat} (h : t.kind = .blockEnd) (htokens : i.tokens = t :: more) :
    readBlockEntries (fuel + 1) start i = ⟨[], i.goto more, none⟩ := by
  obtain ⟨kind, first, last⟩ := t
  obtain rfl : kind = .blockEnd := h
  rw [readBlockEntries]
  simp only [htokens]

/-- One entry of a block, and the others behind it. -/
theorem readBlockEntries_entry {k first v : Token} {rest rest' : List Token} {node : Node}
    {entries : List (Node × Node)} (ht : t.kind = .key) (hk : k.kind = .scalar true s)
    (hv : v.kind = .value) (hfirst : endsBlockEntry first.kind = false)
    (htokens : i.tokens = t :: k :: v :: first :: more)
    (hnode : readNode (fuel + 1) true true (i.goto (first :: more)) = ⟨node, i.goto rest, none⟩)
    (hentries : readBlockEntries (fuel + 3) start (i.goto rest) = ⟨entries, i.goto rest', none⟩) :
    readBlockEntries (fuel + 4) start i
      = ⟨(.scalar k.start none true s, node) :: entries, i.goto rest', none⟩ := by
  obtain ⟨kind, a, b⟩ := t
  obtain rfl : kind = .key := ht
  obtain ⟨kind', a', b'⟩ := v
  obtain rfl : kind' = .value := hv
  have hstarts : StartsNode k.kind := by
    rw [hk]
    exact .scalar true s
  have hkey : readBlockEntry (fuel + 3) b (i.goto (k :: ⟨.value, a', b'⟩ :: first :: more))
      = ⟨.scalar k.start none true s, i.goto (⟨.value, a', b'⟩ :: first :: more), none⟩ := by
    rw [readBlockEntry]
    show (if endsBlockEntry k.kind = true then _ else _ : Part Node) = _
    rw [hk, if_neg (by exact Bool.false_ne_true), readNode_start hstarts rfl,
      readContent_scalar hk rfl]
    rfl
  have hvalue : readBlockValue (fuel + 3) (i.goto (⟨.value, a', b'⟩ :: first :: more))
      = ⟨node, i.goto rest, none⟩ := by
    rw [readBlockValue]
    show readBlockEntry (fuel + 2) b' (i.goto (first :: more)) = _
    rw [readBlockEntry]
    show (if endsBlockEntry first.kind = true then _ else _ : Part Node) = _
    rw [hfirst, if_neg Bool.false_ne_true]
    exact hnode
  rw [readBlockEntries]
  simp only [htokens, hkey, hvalue, hentries]

/-! ## §4. Values. -/

/-- A value behind a dash begins with its own token. -/
theorem Value.itemKinds_cons (v : Value) :
    ∃ k rest, v.itemKinds = k :: rest ∧ StartsNode k ∧ k ≠ .blockEntry := by
  cases v with
  | text s =>
      rw [Value.itemKinds]
      exact ⟨_, _, rfl, .scalar _ s, TokenKind.noConfusion⟩
  | sequence items =>
      cases items with
      | nil =>
          rw [Value.itemKinds]
          exact ⟨_, _, rfl, .flowSequence, TokenKind.noConfusion⟩
      | cons v vs =>
          rw [Value.itemKinds]
          exact ⟨_, _, rfl, .blockSequence, TokenKind.noConfusion⟩
  | mapping entries =>
      cases entries with
      | nil =>
          rw [Value.itemKinds]
          exact ⟨_, _, rfl, .flowMapping, TokenKind.noConfusion⟩
      | cons e es =>
          rw [Value.itemKinds]
          exact ⟨_, _, rfl, .blockMapping, TokenKind.noConfusion⟩

/-- Behind a key, only a sequence that is not empty is written in another way. -/
theorem Value.behindKeyKinds_cons (v : Value) :
    ∃ k rest, v.behindKeyKinds = k :: rest ∧ StartsNode k := by
  cases v with
  | text s =>
      rw [Value.behindKeyKinds]
      exact ⟨_, _, rfl, .scalar _ s⟩
  | sequence items =>
      cases items with
      | nil =>
          rw [Value.behindKeyKinds]
          exact ⟨_, _, rfl, .flowSequence⟩
      | cons v vs =>
          rw [Value.behindKeyKinds, Value.itemsKinds]
          exact ⟨_, _, rfl, .entry⟩
  | mapping entries =>
      cases entries with
      | nil =>
          rw [Value.behindKeyKinds]
          exact ⟨_, _, rfl, .flowMapping⟩
      | cons e es =>
          rw [Value.behindKeyKinds]
          exact ⟨_, _, rfl, .blockMapping⟩

/-- What is read is the value, up to the tokens behind it. -/
def ReadsAs (v : Value) (block loose : Bool) (fuel : Nat) (i : Input) (more : List Token) : Prop :=
  ∃ node : Node, readNode fuel block loose i = ⟨node, i.goto more, none⟩ ∧ Denotes v node

theorem readsAs_text (h : part.map Token.kind = [.scalar (styleOf s == .plain) s])
    (htokens : i.tokens = part ++ more) (hfuel : 2 ≤ fuel) :
    ReadsAs (.text s) block loose fuel i more := by
  obtain ⟨fuel, rfl⟩ : ∃ f, fuel = f + 2 := ⟨fuel - 2, by omega⟩
  obtain ⟨t, rfl, ht⟩ := List.map_eq_singleton_iff.mp h
  have hstarts : StartsNode t.kind := by
    rw [ht]
    exact .scalar _ s
  refine ⟨.scalar t.start none (styleOf s == .plain) s, ?_, ?_⟩
  · rw [readNode_start hstarts htokens, readContent_scalar ht htokens]
    rfl
  · rw [Denotes]
    refine ⟨_, _, rfl, fun hplain => ?_⟩
    have hstyled := Tokens.styled s
    rw [beq_iff_eq.mp hplain] at hstyled
    cases hstyled with
    | plain _ hmeans _ => exact hmeans

theorem readsAs_noItems (h : part.map Token.kind = [.flowSequenceStart, .flowSequenceEnd])
    (htokens : i.tokens = part ++ more) (hfuel : 3 ≤ fuel) :
    ReadsAs (.sequence []) block loose fuel i more := by
  obtain ⟨fuel, rfl⟩ : ∃ f, fuel = f + 3 := ⟨fuel - 3, by omega⟩
  obtain ⟨a, rest, rfl, ha, hrest⟩ := List.map_eq_cons_iff.mp h
  obtain ⟨b, rfl, hb⟩ := List.map_eq_singleton_iff.mp hrest
  have hstarts : StartsNode a.kind := by
    rw [ha]
    exact .flowSequence
  refine ⟨.sequence a.start [], ?_, ?_⟩
  · rw [readNode_start hstarts htokens, readContent_flowSequence ha hb htokens]
    rfl
  · rw [Denotes]
    exact ⟨_, _, rfl, by rw [DenoteItems]⟩

theorem readsAs_noEntries (h : part.map Token.kind = [.flowMappingStart, .flowMappingEnd])
    (htokens : i.tokens = part ++ more) (hfuel : 3 ≤ fuel) :
    ReadsAs (.mapping []) block loose fuel i more := by
  obtain ⟨fuel, rfl⟩ : ∃ f, fuel = f + 3 := ⟨fuel - 3, by omega⟩
  obtain ⟨a, rest, rfl, ha, hrest⟩ := List.map_eq_cons_iff.mp h
  obtain ⟨b, rfl, hb⟩ := List.map_eq_singleton_iff.mp hrest
  have hstarts : StartsNode a.kind := by
    rw [ha]
    exact .flowMapping
  refine ⟨.mapping a.start [], ?_, ?_⟩
  · rw [readNode_start hstarts htokens, readContent_flowMapping ha hb htokens]
    rfl
  · rw [Denotes]
    exact ⟨_, _, rfl, by rw [DenoteEntries]⟩

/-- The reader takes the items before `tail`, and goes on with `rest`. -/
def ReadsItems (read : Nat → Input → Part (List Node)) (tail rest : List Token)
    (vs : List Value) : Prop :=
  ∀ {i : Input} {part : List Token} (fuel : Nat), part.map Token.kind = Value.itemsKinds vs →
    i.tokens = part ++ tail → 4 * part.length + 1 ≤ fuel →
      ∃ nodes : List Node, read fuel i = ⟨nodes, i.goto rest, none⟩ ∧ DenoteItems vs nodes

/-- **One more item** before the others. -/
theorem ReadsItems.cons {read : Nat → Input → Part (List Node)} {tail rest : List Token}
    {v : Value} {vs : List Value} (hread : TakesItem read)
    (hv : ∀ {i : Input} {part more : List Token} {fuel : Nat}, part.map Token.kind = v.itemKinds →
      i.tokens = part ++ more → 4 * part.length + 4 ≤ fuel → ReadsAs v true false fuel i more)
    (hvs : ReadsItems read tail rest vs) : ReadsItems read tail rest (v :: vs) := by
  intro i part fuel h htokens hfuel
  rw [Value.itemsKinds] at h
  obtain ⟨t, behind, rfl, ht, hbehind⟩ := List.map_eq_cons_iff.mp h
  obtain ⟨own, others, rfl, hown, hothers⟩ := List.map_eq_append_iff.mp hbehind
  simp only [List.length_cons, List.length_append] at hfuel
  obtain ⟨fuel, rfl⟩ : ∃ f, fuel = f + 1 := ⟨fuel - 1, by omega⟩
  have hvalue : ReadsAs v true false fuel (i.goto (own ++ (others ++ tail))) (others ++ tail) :=
    hv hown rfl (by omega)
  obtain ⟨node, hnode, hdenotes⟩ := hvalue
  obtain ⟨nodes, hnodes, hall⟩ := hvs (i := i.goto (others ++ tail)) fuel hothers rfl (by omega)
  obtain ⟨k, kinds, hkinds, hstarts, hne⟩ := Value.itemKinds_cons v
  rw [hkinds] at hown
  obtain ⟨first, own, rfl, hfirst, -⟩ := List.map_eq_cons_iff.mp hown
  refine ⟨node :: nodes, hread ht (hfirst ▸ hstarts) (hfirst ▸ hne) ?_ hnode hnodes, ?_⟩
  · rw [htokens, List.cons_append, List.append_assoc]
    rfl
  · rw [DenoteItems]
    exact ⟨_, _, rfl, hdenotes, hall⟩

/-- The items of a block are read up to its end. -/
def ItemsRead (vs : List Value) : Prop :=
  ∀ {more : List Token} {e : Token} (start : Mark), e.kind = .blockEnd →
    ReadsItems (readBlockItems · start) (e :: more) more vs

/-- The entries of a block are read up to its end. -/
def EntriesRead (es : List (String × Value)) : Prop :=
  ∀ {i : Input} {part more : List Token} {e : Token} (fuel : Nat) (start : Mark),
    part.map Token.kind = Value.entriesKinds es → i.tokens = part ++ e :: more → e.kind = .blockEnd →
      4 * part.length + 1 ≤ fuel →
      ∃ entries : List (Node × Node), readBlockEntries fuel start i = ⟨entries, i.goto more, none⟩
        ∧ DenoteEntries es entries

theorem readsAs_items {v : Value} {vs : List Value} (hread : ItemsRead (v :: vs))
    (h : part.map Token.kind
      = .blockSequenceStart :: Value.itemsKinds (v :: vs) ++ [.blockEnd])
    (htokens : i.tokens = part ++ more) (hfuel : 4 * part.length + 4 ≤ fuel) :
    ReadsAs (.sequence (v :: vs)) true loose fuel i more := by
  obtain ⟨t, rest, rfl, ht, hrest⟩ := List.map_eq_cons_iff.mp h
  obtain ⟨inner, last, rfl, hinner, hlast⟩ := List.map_eq_append_iff.mp hrest
  obtain ⟨e, rfl, he⟩ := List.map_eq_singleton_iff.mp hlast
  simp only [List.length_cons, List.length_append, List.length_nil] at hfuel
  obtain ⟨fuel, rfl⟩ : ∃ f, fuel = f + 2 := ⟨fuel - 2, by omega⟩
  have hstarts : StartsNode t.kind := by
    rw [ht]
    exact .blockSequence
  have hbehind : i.tokens = t :: (inner ++ e :: more) := by
    rw [htokens, List.cons_append, List.append_assoc]
    rfl
  obtain ⟨nodes, hnodes, hdenotes⟩ := hread t.start he (i := i.goto (inner ++ e :: more)) fuel
    hinner rfl (by omega)
  refine ⟨.sequence t.start nodes, ?_, ?_⟩
  · rw [readNode_start hstarts hbehind, readContent_blockSequence ht hbehind hnodes]
  · rw [Denotes]
    exact ⟨_, _, rfl, hdenotes⟩

theorem readsAs_entries {e : String × Value} {es : List (String × Value)}
    (hread : EntriesRead (e :: es))
    (h : part.map Token.kind
      = .blockMappingStart :: Value.entriesKinds (e :: es) ++ [.blockEnd])
    (htokens : i.tokens = part ++ more) (hfuel : 4 * part.length + 4 ≤ fuel) :
    ReadsAs (.mapping (e :: es)) true loose fuel i more := by
  obtain ⟨t, rest, rfl, ht, hrest⟩ := List.map_eq_cons_iff.mp h
  obtain ⟨inner, last, rfl, hinner, hlast⟩ := List.map_eq_append_iff.mp hrest
  obtain ⟨e, rfl, he⟩ := List.map_eq_singleton_iff.mp hlast
  simp only [List.length_cons, List.length_append, List.length_nil] at hfuel
  obtain ⟨fuel, rfl⟩ : ∃ f, fuel = f + 2 := ⟨fuel - 2, by omega⟩
  have hstarts : StartsNode t.kind := by
    rw [ht]
    exact .blockMapping
  have hbehind : i.tokens = t :: (inner ++ e :: more) := by
    rw [htokens, List.cons_append, List.append_assoc]
    rfl
  obtain ⟨entries, hentries, hdenotes⟩ := hread (i := i.goto (inner ++ e :: more)) fuel
    t.start hinner rfl he (by omega)
  refine ⟨.mapping t.start entries, ?_, ?_⟩
  · rw [readNode_start hstarts hbehind, readContent_blockMapping ht hbehind hentries]
  · rw [Denotes]
    exact ⟨_, _, rfl, hdenotes⟩

/-- The items of a sequence that is no deeper than the key before it are read up to what follows. -/
def LooseItemsRead (vs : List Value) : Prop :=
  ∀ {more : List Token} {e : Token}, endsBlockEntry e.kind = true →
    ReadsItems readLooseItems (e :: more) (e :: more) vs

theorem readsAs_looseItems {v : Value} {vs : List Value} {e : Token}
    (hread : LooseItemsRead (v :: vs)) (h : part.map Token.kind = Value.itemsKinds (v :: vs))
    (htokens : i.tokens = part ++ e :: more) (he : endsBlockEntry e.kind = true)
    (hfuel : 4 * part.length + 4 ≤ fuel) :
    ReadsAs (.sequence (v :: vs)) block true fuel i (e :: more) := by
  obtain ⟨fuel, rfl⟩ : ∃ f, fuel = f + 2 := ⟨fuel - 2, by omega⟩
  obtain ⟨nodes, hnodes, hdenotes⟩ := hread he fuel h htokens (by omega)
  rw [Value.itemsKinds] at h
  obtain ⟨t, rest, rfl, ht, -⟩ := List.map_eq_cons_iff.mp h
  have hstarts : StartsNode t.kind := by
    rw [ht]
    exact .entry
  refine ⟨.sequence t.start nodes, ?_, ?_⟩
  · rw [readNode_start hstarts htokens, readContent_loose ht hnodes]
  · rw [Denotes]
    exact ⟨_, _, rfl, hdenotes⟩

theorem ne_blockEntry_of_ends {k : TokenKind} (h : endsBlockEntry k = true) : k ≠ .blockEntry := by
  rintro rfl
  cases h

/-- Behind the value of a key comes the next key or the end of the block. -/
theorem exists_next_entry {es : List (String × Value)} {others : List Token} {e : Token}
    (h : others.map Token.kind = Value.entriesKinds es) (he : e.kind = .blockEnd)
    (more : List Token) :
    ∃ (e' : Token) (more' : List Token), others ++ e :: more = e' :: more'
      ∧ endsBlockEntry e'.kind = true := by
  cases es with
  | nil =>
      rw [Value.entriesKinds] at h
      obtain rfl := List.map_eq_nil_iff.mp h
      exact ⟨e, more, rfl, by rw [he]; rfl⟩
  | cons entry es =>
      rw [Value.entriesKinds] at h
      obtain ⟨t, rest, rfl, ht, -⟩ := List.map_eq_cons_iff.mp h
      exact ⟨t, rest ++ e :: more, rfl, by rw [ht]; rfl⟩

mutual

/-- **A value behind a dash is read back.** -/
theorem readsAs_item : ∀ (v : Value) {i : Input} {part more : List Token} {fuel : Nat} {loose : Bool},
    part.map Token.kind = v.itemKinds → i.tokens = part ++ more → 4 * part.length + 4 ≤ fuel →
      ReadsAs v true loose fuel i more
  | .text s, i, part, more, fuel, loose, h, htokens, hfuel => by
      rw [Value.itemKinds] at h
      exact readsAs_text h htokens (by omega)
  | .sequence [], i, part, more, fuel, loose, h, htokens, hfuel => by
      rw [Value.itemKinds] at h
      exact readsAs_noItems h htokens (by omega)
  | .mapping [], i, part, more, fuel, loose, h, htokens, hfuel => by
      rw [Value.itemKinds] at h
      exact readsAs_noEntries h htokens (by omega)
  | .sequence (v :: vs), i, part, more, fuel, loose, h, htokens, hfuel => by
      rw [Value.itemKinds] at h
      exact readsAs_items (itemsRead (v :: vs)) h htokens hfuel
  | .mapping (e :: es), i, part, more, fuel, loose, h, htokens, hfuel => by
      rw [Value.itemKinds] at h
      exact readsAs_entries (entriesRead (e :: es)) h htokens hfuel

/-- **A value behind a key is read back**, up to the next key or the end of the block. -/
theorem readsAs_behindKey : ∀ (v : Value) {i : Input} {part more : List Token} {e : Token}
    {fuel : Nat},
    part.map Token.kind = v.behindKeyKinds → i.tokens = part ++ e :: more →
      endsBlockEntry e.kind = true → 4 * part.length + 4 ≤ fuel →
      ReadsAs v true true fuel i (e :: more)
  | .text s, i, part, more, e, fuel, h, htokens, he, hfuel => by
      rw [Value.behindKeyKinds] at h
      exact readsAs_text h htokens (by omega)
  | .sequence [], i, part, more, e, fuel, h, htokens, he, hfuel => by
      rw [Value.behindKeyKinds] at h
      exact readsAs_noItems h htokens (by omega)
  | .mapping [], i, part, more, e, fuel, h, htokens, he, hfuel => by
      rw [Value.behindKeyKinds] at h
      exact readsAs_noEntries h htokens (by omega)
  | .sequence (v :: vs), i, part, more, e, fuel, h, htokens, he, hfuel => by
      rw [Value.behindKeyKinds] at h
      exact readsAs_looseItems (looseItemsRead (v :: vs)) h htokens he hfuel
  | .mapping (e' :: es), i, part, more, e, fuel, h, htokens, he, hfuel => by
      rw [Value.behindKeyKinds] at h
      exact readsAs_entries (entriesRead (e' :: es)) h htokens hfuel

theorem itemsRead : ∀ (vs : List Value), ItemsRead vs
  | [], more, e, start, he, i, part, fuel, h, htokens, hfuel => by
      rw [Value.itemsKinds] at h
      obtain rfl := List.map_eq_nil_iff.mp h
      obtain ⟨fuel, rfl⟩ : ∃ f, fuel = f + 1 := ⟨fuel - 1, by omega⟩
      exact ⟨[], readBlockItems_end he htokens, by rw [DenoteItems]⟩
  | v :: vs, more, e, start, he, i, part, fuel, h, htokens, hfuel =>
      ReadsItems.cons (takesItem_block start) (readsAs_item v) (itemsRead vs start he) fuel h
        htokens hfuel

theorem looseItemsRead : ∀ (vs : List Value), LooseItemsRead vs
  | [], more, e, he, i, part, fuel, h, htokens, hfuel => by
      rw [Value.itemsKinds] at h
      obtain rfl := List.map_eq_nil_iff.mp h
      obtain ⟨fuel, rfl⟩ : ∃ f, fuel = f + 1 := ⟨fuel - 1, by omega⟩
      exact ⟨[], readLooseItems_end (ne_blockEntry_of_ends he) htokens, by rw [DenoteItems]⟩
  | v :: vs, more, e, he, i, part, fuel, h, htokens, hfuel =>
      ReadsItems.cons takesItem_loose (readsAs_item v) (looseItemsRead vs he) fuel h htokens hfuel

theorem entriesRead : ∀ (es : List (String × Value)), EntriesRead es
  | [], i, part, more, e, fuel, start, h, htokens, he, hfuel => by
      rw [Value.entriesKinds] at h
      obtain rfl := List.map_eq_nil_iff.mp h
      obtain ⟨fuel, rfl⟩ : ∃ f, fuel = f + 1 := ⟨fuel - 1, by omega⟩
      exact ⟨[], readBlockEntries_end he htokens, by rw [DenoteEntries]⟩
  | (key, v) :: es, i, part, more, e, fuel, start, h, htokens, he, hfuel => by
      rw [Value.entriesKinds] at h
      obtain ⟨t, rest, rfl, ht, hrest⟩ := List.map_eq_cons_iff.mp h
      obtain ⟨k, rest, rfl, hk, hrest⟩ := List.map_eq_cons_iff.mp hrest
      obtain ⟨sign, rest, rfl, hsign, hrest⟩ := List.map_eq_cons_iff.mp hrest
      obtain ⟨own, others, rfl, hown, hothers⟩ := List.map_eq_append_iff.mp hrest
      simp only [List.length_cons, List.length_append] at hfuel
      obtain ⟨fuel, rfl⟩ : ∃ f, fuel = f + 4 := ⟨fuel - 4, by omega⟩
      obtain ⟨e', more', hmore', he'⟩ := exists_next_entry hothers he more
      have hvalue : ReadsAs v true true (fuel + 1) (i.goto (own ++ e' :: more')) (e' :: more') :=
        readsAs_behindKey v hown rfl he' (by omega)
      obtain ⟨node, hnode, hdenotes⟩ := hvalue
      obtain ⟨entries, hentries, hall⟩ := entriesRead es (i := i.goto (others ++ e :: more))
        (fuel + 3) start hothers rfl he (by omega)
      rw [hmore'] at hentries
      obtain ⟨kind, kinds, hkinds, hstarts⟩ := Value.behindKeyKinds_cons v
      rw [hkinds] at hown
      obtain ⟨first, own, rfl, hfirst, -⟩ := List.map_eq_cons_iff.mp hown
      refine ⟨(.scalar k.start none true key.toList, node) :: entries, readBlockEntries_entry ht hk
        hsign (hfirst ▸ hstarts.endsBlockEntry_eq) ?_ hnode hentries, ?_⟩
      · rw [htokens]
        simp only [List.cons_append, List.append_assoc, hmore']
        rfl
      · rw [DenoteEntries]
        exact ⟨_, _, _, rfl, hdenotes, hall⟩

end

/-! ## §5. Whole texts. -/

/-- The document of a block of entries is what is read from its first token on. -/
theorem Document.ofTokens_block {t : Token} {rest : List Token} (ht : t.kind = .blockMappingStart) :
    Document.ofTokens (t :: rest) none
      = .ofPart (readNode (depthFor (t :: rest)) true false
          ⟨t :: rest, none, .none, standardHandles⟩) := by
  obtain ⟨kind, first, last⟩ := t
  obtain rfl : kind = .blockMappingStart := ht
  rfl

/-- **The document of a written mapping** has a root of its structure, and nothing behind it. -/
theorem Document.ofTokens_write {es : List (String × Value)} (hes : es ≠ []) {made : List Token}
    (h : made.map Token.kind = (Value.mapping es).itemKinds ++ [.streamEnd]) :
    ∃ root : Node, Document.ofTokens made none = ⟨some root, .none, none, false⟩
      ∧ Denotes (.mapping es) root := by
  obtain ⟨e, es, rfl⟩ := List.exists_cons_of_ne_nil hes
  obtain ⟨part, last, rfl, hpart, hlast⟩ := List.map_eq_append_iff.mp h
  obtain ⟨sign, rfl, hsign⟩ := List.map_eq_singleton_iff.mp hlast
  have hfuel : 4 * part.length + 4 ≤ depthFor (part ++ [sign]) := by
    unfold depthFor
    rw [List.length_append]
    omega
  have hroot : ReadsAs (.mapping (e :: es)) true false (depthFor (part ++ [sign]))
      ⟨part ++ [sign], none, .none, standardHandles⟩ [sign] := readsAs_item _ hpart rfl hfuel
  obtain ⟨root, hread, hdenotes⟩ := hroot
  rw [Value.itemKinds] at hpart
  obtain ⟨t, rest, rfl, ht, -⟩ := List.map_eq_cons_iff.mp hpart
  refine ⟨root, ?_, hdenotes⟩
  rw [List.cons_append, Document.ofTokens_block ht, ← List.cons_append, hread]
  obtain ⟨kind, first, last⟩ := sign
  obtain rfl : kind = .streamEnd := hsign
  rfl

end Crosswalk.Yaml
