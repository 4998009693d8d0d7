/-
  Crosswalk.Proofs.Yaml.Written
  ──────────────────────────────────────
  **THE TOKENS OF A WRITTEN VALUE.**

  A written value is taken as the tokens that its structure says: every text
  as one scalar, every collection within its signs.  A sequence behind a key
  stands at the column of the key and has no signs around it.

    • `Before.item`, `Before.behindKey`: one value, by induction on it,
    • `Before.items`, `Before.entries`: the parts of a collection,
    • `tokens_write`: the tokens of a whole text.
-/
import Crosswalk.Proofs.Yaml.Taken

namespace Crosswalk.Yaml

variable {c : Char} {s next rest : Text} {t : Tokens} {m : Mark} {ks opened : List TokenKind}
  {bs outer : List Int} {k n : Nat}

/-! ## §1. Kinds of tokens. -/

mutual

/-- The tokens of a value behind a dash. -/
def Value.itemKinds : Value → List TokenKind
  | .text s => [.scalar (styleOf s == .plain) s]
  | .sequence [] => [.flowSequenceStart, .flowSequenceEnd]
  | .sequence (v :: rest) => .blockSequenceStart :: Value.itemsKinds (v :: rest) ++ [.blockEnd]
  | .mapping [] => [.flowMappingStart, .flowMappingEnd]
  | .mapping (e :: rest) => .blockMappingStart :: Value.entriesKinds (e :: rest) ++ [.blockEnd]

/-- The tokens of a value behind a key. -/
def Value.behindKeyKinds : Value → List TokenKind
  | .text s => [.scalar (styleOf s == .plain) s]
  | .sequence [] => [.flowSequenceStart, .flowSequenceEnd]
  | .sequence (v :: rest) => Value.itemsKinds (v :: rest)
  | .mapping [] => [.flowMappingStart, .flowMappingEnd]
  | .mapping (e :: rest) => .blockMappingStart :: Value.entriesKinds (e :: rest) ++ [.blockEnd]

/-- The tokens of items. -/
def Value.itemsKinds : List Value → List TokenKind
  | [] => []
  | v :: rest => .blockEntry :: v.itemKinds ++ Value.itemsKinds rest

/-- The tokens of entries. -/
def Value.entriesKinds : List (String × Value) → List TokenKind
  | [] => []
  | (k, v) :: rest =>
    .key :: .scalar true k.toList :: .value :: v.behindKeyKinds ++ Value.entriesKinds rest

end

/-- A key is a word that is not too long to be found. -/
structure IsKey (key : String) : Prop where
  word : IsWord key.toList
  length : key.toList.length ≤ longestKey

instance (key : String) : Decidable (IsKey key) :=
  decidable_of_iff (IsWord key.toList ∧ key.toList.length ≤ longestKey)
    ⟨fun h => ⟨h.1, h.2⟩, fun h => ⟨h.word, h.length⟩⟩

mutual

/-- The keys within a value are words. -/
def Value.HasWords : Value → Prop
  | .text _ => True
  | .sequence items => Value.ItemsHaveWords items
  | .mapping entries => Value.EntriesHaveWords entries

/-- The keys within items are words. -/
def Value.ItemsHaveWords : List Value → Prop
  | [] => True
  | v :: rest => v.HasWords ∧ Value.ItemsHaveWords rest

/-- The keys of entries are words, and so are those within their values. -/
def Value.EntriesHaveWords : List (String × Value) → Prop
  | [] => True
  | (k, v) :: rest => IsKey k ∧ v.HasWords ∧ Value.EntriesHaveWords rest

end

theorem Value.entriesHaveWords_append {es es' : List (String × Value)}
    (h : Value.EntriesHaveWords es) (h' : Value.EntriesHaveWords es') :
    Value.EntriesHaveWords (es ++ es') := by
  induction es with
  | nil => exact h'
  | cons e es ih =>
      obtain ⟨k, v⟩ := e
      rw [Value.EntriesHaveWords] at h
      rw [List.cons_append, Value.EntriesHaveWords]
      exact ⟨h.1, h.2.1, ih h.2.2⟩

/-- An entry that may be left out. -/
theorem Value.entriesHaveWords_optional {α : Type} {key : String} {write : α → Value}
    (hkey : IsKey key) (h : ∀ a, (write a).HasWords) (o : Option α) :
    Value.EntriesHaveWords (o.map fun a => (key, write a)).toList := by
  cases o with
  | none =>
      show Value.EntriesHaveWords []
      rw [Value.EntriesHaveWords]
      trivial
  | some a =>
      show Value.EntriesHaveWords [(key, write a)]
      rw [Value.EntriesHaveWords, Value.EntriesHaveWords]
      exact ⟨hkey, h a, trivial⟩

theorem Value.itemsHaveWords_map {α : Type} {write : α → Value} (h : ∀ a, (write a).HasWords)
    (xs : List α) : Value.ItemsHaveWords (xs.map write) := by
  induction xs with
  | nil =>
      rw [List.map_nil, Value.ItemsHaveWords]
      trivial
  | cons x xs ih =>
      rw [List.map_cons, Value.ItemsHaveWords]
      exact ⟨h x, ih⟩

/-! ## §2. Beginnings. -/

/-- A written text begins with no white space. -/
theorem follows_writeText (n : Nat) (s rest : Text) : Follows (writeText n s ++ rest) := by
  have hstyled := Tokens.styled s
  unfold writeText
  generalize styleOf s = style at hstyled
  cases hstyled with
  | plain hs _ hplain =>
      obtain ⟨c, s, rfl⟩ := List.exists_cons_of_ne_nil hs
      obtain ⟨hchars, -⟩ := allowsPlain_spec hplain
      obtain ⟨hsign, -, hsolid⟩ := Tokens.beginsPlain_of_allowsPlain hplain rest
      refine follows_cons ⟨hsolid.1, hsolid.2, ?_, ?_⟩ _
      · rintro rfl
        exact hsign (by decide)
      · intro hmark
        have hprintable := (hchars c List.mem_cons_self).1
        unfold isPrintable at hprintable
        rw [hmark] at hprintable
        cases hprintable
  | singleQuoted _ _ => exact follows_cons (by decide) _
  | doubleQuoted => exact follows_cons (by decide) _
  | literal _ _ => exact follows_cons (by decide) _

theorem follows_writeItems (n : Nat) (v : Value) (vs : List Value) (rest : Text) :
    Follows (Value.writeItems n (v :: vs) ++ rest) := by
  cases vs with
  | nil =>
      rw [Value.writeItems]
      exact follows_cons (by decide) _
  | cons w vs =>
      rw [Value.writeItems]
      exact follows_cons (by decide) _

theorem follows_word (hs : IsWord s) (rest : Text) : Follows (s ++ rest) := by
  obtain ⟨c, s, rfl⟩ := List.exists_cons_of_ne_nil hs.1
  exact follows_cons (isSolid_of_isAlpha (hs.2 c List.mem_cons_self)) _

theorem follows_writeEntries (n : Nat) {e : String × Value} {es : List (String × Value)}
    (h : Value.EntriesHaveWords (e :: es)) (rest : Text) :
    Follows (Value.writeEntries n (e :: es) ++ rest) := by
  obtain ⟨k, v⟩ := e
  rw [Value.EntriesHaveWords] at h
  cases es with
  | nil =>
      rw [Value.writeEntries, List.append_assoc]
      exact follows_word h.1.word _
  | cons e' es =>
      rw [Value.writeEntries, List.append_assoc, List.append_assoc, List.append_assoc]
      exact follows_word h.1.word _

theorem follows_writeItem (n : Nat) {v : Value} (h : v.HasWords) (rest : Text) :
    Follows (v.writeItem n ++ rest) := by
  cases v with
  | text s =>
      rw [Value.writeItem]
      exact follows_writeText n s rest
  | sequence items =>
      cases items with
      | nil =>
          rw [Value.writeItem]
          exact follows_cons (by decide) _
      | cons v vs =>
          rw [Value.writeItem]
          exact follows_writeItems n v vs rest
  | mapping entries =>
      cases entries with
      | nil =>
          rw [Value.writeItem]
          exact follows_cons (by decide) _
      | cons e es =>
          rw [Value.writeItem]
          rw [Value.HasWords] at h
          exact follows_writeEntries n h rest

/-- Behind a colon there is white space. -/
theorem atGap_writeBehindKey (n : Nat) (v : Value) (rest : Text) :
    atGap (v.writeBehindKey n ++ rest) = true := by
  cases v with
  | text s =>
      rw [Value.writeBehindKey]
      rfl
  | sequence items =>
      cases items with
      | nil =>
          rw [Value.writeBehindKey]
          rfl
      | cons v vs =>
          rw [Value.writeBehindKey]
          rfl
  | mapping entries =>
      cases entries with
      | nil =>
          rw [Value.writeBehindKey]
          rfl
      | cons e es =>
          rw [Value.writeBehindKey]
          rfl

/-! ## §3. Values. -/

namespace Tokens

/-- The block around some tokens is closed behind them. -/
theorem Before.closed {start : TokenKind} {inner : List TokenKind} {i j : Int}
    (h : t.Before next k true (ks ++ [start] ++ inner) (j :: i :: outer)) (hk : k < j) :
    t.Before next k true (ks ++ (start :: inner ++ [.blockEnd])) (i :: outer) := by
  have hclosed := h.close hk (List.cons_ne_nil i outer)
  rw [List.append_assoc, List.append_assoc] at hclosed
  exact hclosed

mutual

/-- **A value behind a dash is taken**, up to what is no deeper than the dash. -/
theorem Before.item : ∀ (v : Value), v.HasWords →
    ∀ {t : Tokens} {next : Text} {k n : Nat} {ks : List TokenKind} {outer : List Int},
      t.Before (v.writeItem (n + 2) ++ (indentation k ++ next)) (n + 2) true ks (n :: outer) →
      k ≤ n → Follows next →
      ∃ t' : Tokens, Goes t t' ∧ t'.Before next k true (ks ++ v.itemKinds) (n :: outer)
  | .text s, _, t, next, k, n, ks, outer, h, hk, hnext => by
      rw [Value.writeItem] at h
      rw [Value.itemKinds]
      exact h.text (by omega) hk hnext
  | .sequence [], _, t, next, k, n, ks, outer, h, hk, hnext => by
      rw [Value.writeItem] at h
      rw [Value.itemKinds]
      exact h.brackets .sequence (by omega) hnext
  | .mapping [], _, t, next, k, n, ks, outer, h, hk, hnext => by
      rw [Value.writeItem] at h
      rw [Value.itemKinds]
      exact h.brackets .mapping (by omega) hnext
  | .sequence (v :: vs), hwords, t, next, k, n, ks, outer, h, hk, hnext => by
      rw [Value.writeItem] at h
      rw [Value.HasWords] at hwords
      have hdeeper : (n : Int) < ((n + 2 : Nat) : Int) := by omega
      obtain ⟨t', hgoes, ht'⟩ :=
        Before.items (v :: vs) (List.cons_ne_nil v vs) hwords h (.opens outer hdeeper) (by omega)
          hnext
      rw [Value.itemKinds]
      exact ⟨t', hgoes, ht'.closed (by omega)⟩
  | .mapping (e :: es), hwords, t, next, k, n, ks, outer, h, hk, hnext => by
      rw [Value.writeItem] at h
      rw [Value.HasWords] at hwords
      have hdeeper : (n : Int) < ((n + 2 : Nat) : Int) := by omega
      obtain ⟨t', hgoes, ht'⟩ :=
        Before.entries (e :: es) (List.cons_ne_nil e es) hwords h (.opens outer hdeeper) (by omega)
          hnext
      rw [Value.itemKinds]
      exact ⟨t', hgoes, ht'.closed (by omega)⟩

/-- **A value behind a key is taken**, up to what is no deeper than the key. -/
theorem Before.behindKey : ∀ (v : Value), v.HasWords →
    ∀ {t : Tokens} {next : Text} {m : Mark} {k n : Nat} {ks : List TokenKind} {outer : List Int},
      t.Stands (v.writeBehindKey n ++ (indentation k ++ next)) m [none] false ks (n :: outer) →
      n < m.column → k ≤ n → Follows next →
      ∃ t' : Tokens, Goes t t' ∧ t'.Before next k true (ks ++ v.behindKeyKinds) (n :: outer)
  | .text s, _, t, next, m, k, n, ks, outer, h, hn, hk, hnext => by
      rw [Value.writeBehindKey] at h
      rw [Value.behindKeyKinds]
      exact (Before.ofSpace h (follows_writeText _ _ _)).text (by omega) hk hnext
  | .sequence [], _, t, next, m, k, n, ks, outer, h, hn, hk, hnext => by
      rw [Value.writeBehindKey] at h
      rw [Value.behindKeyKinds]
      exact (Before.ofSpace h (follows_cons (by decide) _)).brackets .sequence
        (by omega) hnext
  | .mapping [], _, t, next, m, k, n, ks, outer, h, hn, hk, hnext => by
      rw [Value.writeBehindKey] at h
      rw [Value.behindKeyKinds]
      exact (Before.ofSpace h (follows_cons (by decide) _)).brackets .mapping
        (by omega) hnext
  | .sequence (v :: vs), hwords, t, next, m, k, n, ks, outer, h, hn, hk, hnext => by
      rw [Value.writeBehindKey, List.append_assoc] at h
      rw [Value.HasWords] at hwords
      have hline := Before.ofLine h (follows_writeItems n v vs _) (fun c hc => by cases hc)
      obtain ⟨t', hgoes, ht'⟩ := Before.items (v :: vs) (List.cons_ne_nil v vs) hwords hline
        (.already outer) hk hnext
      rw [List.append_nil] at ht'
      rw [Value.behindKeyKinds]
      exact ⟨t', hgoes, ht'⟩
  | .mapping (e :: es), hwords, t, next, m, k, n, ks, outer, h, hn, hk, hnext => by
      rw [Value.writeBehindKey, List.append_assoc] at h
      rw [Value.HasWords] at hwords
      have hdeeper : (n : Int) < ((n + 2 : Nat) : Int) := by omega
      have hline := Before.ofLine h (follows_writeEntries (n + 2) hwords _)
        (fun c hc => by cases hc)
      obtain ⟨t', hgoes, ht'⟩ :=
        Before.entries (e :: es) (List.cons_ne_nil e es) hwords hline (.opens outer hdeeper)
          (by omega) hnext
      rw [Value.behindKeyKinds]
      exact ⟨t', hgoes, ht'.closed (by omega)⟩

/-- Items at a column are taken, up to what is no deeper. -/
theorem Before.items : ∀ (vs : List Value), vs ≠ [] → Value.ItemsHaveWords vs →
    ∀ {t : Tokens} {next : Text} {k n : Nat} {ks opened : List TokenKind} {bs outer : List Int},
      t.Before (Value.writeItems n vs ++ (indentation k ++ next)) n true ks bs →
      Opens .blockSequenceStart n bs opened (n :: outer) → k ≤ n → Follows next →
      ∃ t' : Tokens, Goes t t'
        ∧ t'.Before next k true (ks ++ opened ++ Value.itemsKinds vs) (n :: outer)
  | [], hno, _, _, _, _, _, _, _, _, _, _, _, _, _ => absurd rfl hno
  | [v], _, hwords, t, next, k, n, ks, opened, bs, outer, h, hopens, hk, hnext => by
      rw [Value.writeItems, List.append_assoc] at h
      rw [Value.ItemsHaveWords] at hwords
      obtain ⟨t₁, hgoes₁, ht₁⟩ := h.dash hopens (follows_writeItem _ hwords.1 _)
      obtain ⟨t', hgoes', ht'⟩ := Before.item v hwords.1 ht₁ hk hnext
      refine ⟨t', hgoes₁.trans hgoes', ?_⟩
      rw [List.append_assoc] at ht'
      rw [Value.itemsKinds, Value.itemsKinds, List.append_nil]
      exact ht'
  | v :: w :: vs, _, hwords, t, next, k, n, ks, opened, bs, outer, h, hopens, hk, hnext => by
      rw [Value.writeItems, List.append_assoc, List.append_assoc, List.append_assoc] at h
      rw [Value.ItemsHaveWords] at hwords
      obtain ⟨t₁, hgoes₁, ht₁⟩ := h.dash hopens (follows_writeItem _ hwords.1 _)
      obtain ⟨t₂, hgoes₂, ht₂⟩ := Before.item v hwords.1 ht₁ (Nat.le_refl n)
        (follows_writeItems n w vs _)
      obtain ⟨t', hgoes', ht'⟩ := Before.items (w :: vs) (List.cons_ne_nil w vs) hwords.2 ht₂
        (.already outer) hk hnext
      refine ⟨t', hgoes₁.trans (hgoes₂.trans hgoes'), ?_⟩
      rw [List.append_nil, List.append_assoc, List.append_assoc] at ht'
      rw [Value.itemsKinds]
      exact ht'

/-- Entries at a column are taken, up to what is no deeper. -/
theorem Before.entries : ∀ (es : List (String × Value)), es ≠ [] → Value.EntriesHaveWords es →
    ∀ {t : Tokens} {next : Text} {k n : Nat} {ks opened : List TokenKind} {bs outer : List Int},
      t.Before (Value.writeEntries n es ++ (indentation k ++ next)) n true ks bs →
      Opens .blockMappingStart n bs opened (n :: outer) → k ≤ n → Follows next →
      ∃ t' : Tokens, Goes t t'
        ∧ t'.Before next k true (ks ++ opened ++ Value.entriesKinds es) (n :: outer)
  | [], hno, _, _, _, _, _, _, _, _, _, _, _, _, _ => absurd rfl hno
  | [(key, v)], _, hwords, t, next, k, n, ks, opened, bs, outer, h, hopens, hk, hnext => by
      rw [Value.writeEntries, List.append_assoc] at h
      rw [Value.EntriesHaveWords] at hwords
      obtain ⟨hkey, hvalue, -⟩ := hwords
      obtain ⟨t₁, m, hgoes₁, hcolumn, ht₁⟩ :=
        h.key hkey.word hkey.length (atGap_writeBehindKey n v _) hopens
      obtain ⟨t', hgoes', ht'⟩ := Before.behindKey v hvalue ht₁ hcolumn hk hnext
      refine ⟨t', hgoes₁.trans hgoes', ?_⟩
      rw [List.append_assoc] at ht'
      rw [Value.entriesKinds, Value.entriesKinds, List.append_nil]
      exact ht'
  | (key, v) :: e :: es, _, hwords, t, next, k, n, ks, opened, bs, outer, h, hopens, hk, hnext => by
      rw [Value.writeEntries, List.append_assoc, List.append_assoc, List.append_assoc] at h
      rw [Value.EntriesHaveWords] at hwords
      obtain ⟨hkey, hvalue, hothers⟩ := hwords
      obtain ⟨t₁, m, hgoes₁, hcolumn, ht₁⟩ :=
        h.key hkey.word hkey.length (atGap_writeBehindKey n v _) hopens
      obtain ⟨t₂, hgoes₂, ht₂⟩ := Before.behindKey v hvalue ht₁ hcolumn (Nat.le_refl n)
        (follows_writeEntries n hothers _)
      obtain ⟨t', hgoes', ht'⟩ := Before.entries (e :: es) (List.cons_ne_nil e es) hothers ht₂
        (.already outer) hk hnext
      refine ⟨t', hgoes₁.trans (hgoes₂.trans hgoes'), ?_⟩
      rw [List.append_nil, List.append_assoc, List.append_assoc] at ht'
      rw [Value.entriesKinds]
      exact ht'

end

end Tokens

/-! ## §4. Whole texts. -/

/-- **A written mapping is taken to its end**, and its tokens are those that its structure says. -/
theorem tokens_write {es : List (String × Value)} (hes : es ≠ [])
    (hwords : Value.EntriesHaveWords es) :
    ∃ made : List Token, tokens (Value.write (.mapping es)) = (made, none)
      ∧ made.map Token.kind = (Value.mapping es).itemKinds ++ [.streamEnd] := by
  obtain ⟨e, es, rfl⟩ := List.exists_cons_of_ne_nil hes
  have htext : Value.write (.mapping (e :: es))
      = Value.writeEntries 0 (e :: es) ++ (indentation 0 ++ []) := by
    rw [Value.write, Value.writeItem]
    exact (List.append_nil _).symm
  rw [htext]
  have hbefore := Tokens.Before.ofStands
    (Tokens.stands_initial (Value.writeEntries 0 (e :: es) ++ (indentation 0 ++ [])))
    (follows_writeEntries 0 hwords _)
  have hopens : Tokens.Opens .blockMappingStart 0 [-1] [.blockMappingStart] [0, -1] :=
    .opens [] (by decide)
  obtain ⟨t', hgoes, ht'⟩ := Tokens.Before.entries (e :: es) hes hwords hbefore hopens
    (Nat.le_refl 0) (fun c hc => by cases hc)
  obtain ⟨fuel, hfuel, hrun⟩ := Tokens.takeAll_of_goes hgoes (Nat.le_refl _)
  obtain ⟨made, hmade, hkinds⟩ := Tokens.takeAll_of_end ht' (by omega : 2 ≤ fuel)
  refine ⟨made, hrun.trans hmade, ?_⟩
  rw [hkinds, Value.itemKinds]
  simp only [List.nil_append, List.append_assoc, List.cons_append]

end Crosswalk.Yaml
