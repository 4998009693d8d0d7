/-
  Crosswalk.Proofs.Yaml.WholeText
  ──────────────────────────────────────
  **WRITTEN TEXTS ARE READ AS A WHOLE.**

  Every character that is written is printable, so a written text may be read
  at all, and its breaks are uniform already.  With its tokens and its nodes
  this gives its document, and what a decoder makes of the root is what it
  makes of the text.

    • `isPrinted_writeItem`: the characters of a written value,
    • `Document.read_writtenMapping`: its document,
    • `decode_write`: what a decoder makes of it.
-/
import Crosswalk.Proofs.Yaml.Denoted
import Crosswalk.Yaml.Decode

namespace Crosswalk.Yaml

variable {c : Char} {s : Text}

/-! ## §1. Characters of texts. -/

theorem isPrinted_indentation (n : Nat) : IsPrinted (indentation n) := by
  intro c hc
  rw [List.eq_of_mem_replicate hc]
  rfl

/-- What stands at the beginning of a line, if one begins. -/
theorem isPrinted_lineStart (afterBreak : Bool) (n : Nat) :
    IsPrinted (if afterBreak then indentation n else []) := by
  cases afterBreak with
  | true => exact isPrinted_indentation n
  | false => exact isPrinted_nil

theorem isPrinted_singleQuotedFrom (n : Nat) : ∀ {s : Text} (afterBreak : Bool),
    IsPrinted s → IsPrinted (singleQuotedFrom n afterBreak s)
  | [], afterBreak, _ => by
      rw [singleQuotedFrom]
      exact (isPrinted_lineStart afterBreak n).append (by decide)
  | c :: s, afterBreak, h => by
      have hc := h c List.mem_cons_self
      rw [singleQuotedFrom]
      split
      · exact (isPrinted_singleQuotedFrom n true h.tail).cons hc
      · refine ((isPrinted_lineStart afterBreak n).append ?_).append
          (isPrinted_singleQuotedFrom n false h.tail)
        split
        · decide
        · exact isPrinted_nil.cons hc

theorem isPrinted_literalLines (n : Nat) : ∀ {s : Text} (afterBreak : Bool),
    IsPrinted s → IsPrinted (literalLines n afterBreak s)
  | [], afterBreak, _ => by
      rw [literalLines]
      cases afterBreak with
      | true => exact isPrinted_nil
      | false => decide
  | c :: s, afterBreak, h => by
      have hc := h c List.mem_cons_self
      rw [literalLines]
      split
      · exact (isPrinted_literalLines n true h.tail).cons hc
      · exact (isPrinted_lineStart afterBreak n).append
          ((isPrinted_literalLines n false h.tail).cons hc)

theorem isPrinted_literalHints (s : Text) : IsPrinted (literalHints s) := by
  rw [literalHints_eq]
  cases hidesIndentation s with
  | true => cases chompingFor s <;> decide
  | false => cases chompingFor s <;> decide

/-- Hexadecimal digits, two of them or four. -/
theorem isPrinted_hexDigits_two : ∀ k < 0x100, IsPrinted (hexDigits 2 k) := by
  decide +kernel

theorem isPrinted_hexDigits_four : ∀ k ∈ [0xFEFF, 0xFFFE, 0xFFFF], IsPrinted (hexDigits 4 k) := by
  decide +kernel

theorem isPrintable_escapeLetter {k : Nat} (h : escapeLetter? k = some c) : isPrintable c = true := by
  unfold escapeLetter? at h
  split at h <;> cases h <;> rfl

theorem isPrinted_doubleQuotedChar (c : Char) : IsPrinted (doubleQuotedChar c) := by
  have hwritten := doubleQuoted c
  generalize doubleQuotedChar c = w at hwritten ⊢
  cases hwritten with
  | plain hprintable => exact isPrinted_nil.cons hprintable
  | letter hletter => exact (isPrinted_nil.cons (isPrintable_escapeLetter hletter)).cons rfl
  | byte hsmall => exact ((isPrinted_hexDigits_two _ hsmall).cons rfl).cons rfl
  | two hmem => exact ((isPrinted_hexDigits_four _ hmem).cons rfl).cons rfl

/-- Every character of a written text is printable, whatever the text holds. -/
theorem isPrinted_writeText (n : Nat) (s : Text) : IsPrinted (writeText n s) := by
  have hstyled := Tokens.styled s
  unfold writeText
  generalize styleOf s = style at hstyled
  cases hstyled with
  | plain _ _ hplain =>
      obtain ⟨hchars, -⟩ := allowsPlain_spec hplain
      have hs : IsPrinted s := fun c hc => (hchars c hc).1
      exact hs.append (by decide)
  | singleQuoted _ hsingle =>
      obtain ⟨hs, -⟩ := allowsSingle_spec hsingle
      exact ((isPrinted_singleQuotedFrom n false hs).cons rfl).append (by decide)
  | doubleQuoted =>
      have hchars : IsPrinted (s.flatMap doubleQuotedChar) := by
        intro c hc
        obtain ⟨d, -, hd⟩ := List.mem_flatMap.mp hc
        exact isPrinted_doubleQuotedChar d c hd
      exact (hchars.cons rfl).append (by decide)
  | literal _ hliteral =>
      have hlines := isPrinted_literalLines n true (allowsLiteral_spec hliteral)
      exact ((isPrinted_literalHints s).cons rfl).append (hlines.cons rfl)

/-! ## §2. Characters of values. -/

theorem isPrintable_of_isAlpha (h : c.isAlpha = true) : isPrintable c = true := by
  have hbounds := toNat_of_isAlpha h
  unfold isPrintable
  simp only [Bool.or_eq_true, Bool.and_eq_true, decide_eq_true_eq]
  omega

theorem isPrinted_word (h : IsWord s) : IsPrinted s :=
  fun c hc => isPrintable_of_isAlpha (h.2 c hc)

mutual

/-- A written value is printable, if its keys are words. -/
theorem isPrinted_writeItem : ∀ (v : Value) (n : Nat), v.HasWords → IsPrinted (v.writeItem n)
  | .text s, n, _ => by
      rw [Value.writeItem]
      exact isPrinted_writeText n s
  | .sequence [], n, _ => by
      rw [Value.writeItem]
      decide
  | .mapping [], n, _ => by
      rw [Value.writeItem]
      decide
  | .sequence (v :: vs), n, h => by
      rw [Value.writeItem]
      rw [Value.HasWords] at h
      exact isPrinted_writeItems (v :: vs) n h
  | .mapping (e :: es), n, h => by
      rw [Value.writeItem]
      rw [Value.HasWords] at h
      exact isPrinted_writeEntries (e :: es) n h

theorem isPrinted_writeBehindKey : ∀ (v : Value) (n : Nat), v.HasWords →
    IsPrinted (v.writeBehindKey n)
  | .text s, n, _ => by
      rw [Value.writeBehindKey]
      exact (isPrinted_writeText _ s).cons rfl
  | .sequence [], n, _ => by
      rw [Value.writeBehindKey]
      decide
  | .mapping [], n, _ => by
      rw [Value.writeBehindKey]
      decide
  | .sequence (v :: vs), n, h => by
      rw [Value.writeBehindKey]
      rw [Value.HasWords] at h
      exact ((isPrinted_indentation n).cons rfl).append (isPrinted_writeItems (v :: vs) n h)
  | .mapping (e :: es), n, h => by
      rw [Value.writeBehindKey]
      rw [Value.HasWords] at h
      exact ((isPrinted_indentation (n + 2)).cons rfl).append
        (isPrinted_writeEntries (e :: es) (n + 2) h)

theorem isPrinted_writeItems : ∀ (vs : List Value) (n : Nat), Value.ItemsHaveWords vs →
    IsPrinted (Value.writeItems n vs)
  | [], n, _ => by
      rw [Value.writeItems]
      exact isPrinted_nil
  | [v], n, h => by
      rw [Value.ItemsHaveWords] at h
      rw [Value.writeItems]
      exact IsPrinted.append (by decide) (isPrinted_writeItem v (n + 2) h.1)
  | v :: w :: vs, n, h => by
      rw [Value.ItemsHaveWords] at h
      rw [Value.writeItems]
      exact ((IsPrinted.append (by decide) (isPrinted_writeItem v (n + 2) h.1)).append
        (isPrinted_indentation n)).append (isPrinted_writeItems (w :: vs) n h.2)

theorem isPrinted_writeEntries : ∀ (es : List (String × Value)) (n : Nat), Value.EntriesHaveWords es →
    IsPrinted (Value.writeEntries n es)
  | [], n, _ => by
      rw [Value.writeEntries]
      exact isPrinted_nil
  | [(k, v)], n, h => by
      rw [Value.EntriesHaveWords] at h
      rw [Value.writeEntries]
      exact (isPrinted_word h.1.word).append ((isPrinted_writeBehindKey v n h.2.1).cons rfl)
  | (k, v) :: e :: es, n, h => by
      rw [Value.EntriesHaveWords] at h
      rw [Value.writeEntries]
      exact (((isPrinted_word h.1.word).append ((isPrinted_writeBehindKey v n h.2.1).cons rfl)).append
        (isPrinted_indentation n)).append (isPrinted_writeEntries (e :: es) n h.2.2)

end

/-! ## §3. Documents. -/

/-- A mapping is written in printable characters. -/
theorem isPrinted_writeMapping {es : List (String × Value)} (hwords : Value.EntriesHaveWords es) :
    IsPrinted (Value.write (.mapping es)) := by
  refine isPrinted_writeItem _ 0 ?_
  rw [Value.HasWords]
  exact hwords

/-- **A written mapping is read as one document**, whose root has its structure. -/
theorem Document.read_writtenMapping {es : List (String × Value)} (hes : es ≠ [])
    (hwords : Value.EntriesHaveWords es) :
    ∃ root : Node, Document.read (Value.write (.mapping es)) = ⟨some root, .none, none, false⟩
      ∧ Denotes (.mapping es) root := by
  obtain ⟨made, hmade, hkinds⟩ := tokens_write hes hwords
  obtain ⟨root, hread, hdenotes⟩ := Document.ofTokens_write hes hkinds
  refine ⟨root, ?_, hdenotes⟩
  unfold Document.read
  rw [(isPrinted_writeMapping hwords).uniformBreaks_eq, hmade]
  exact hread

/-- **What a decoder makes of the nodes of a mapping is what it makes of the written text.** -/
theorem decode_write {α : Type} {root : Site → Node → Except Error α} {es : List (String × Value)}
    {a : α} (hes : es ≠ []) (hwords : Value.EntriesHaveWords es)
    (hroot : ∀ (site : Site) (node : Node), Denotes (.mapping es) node → root site node = .ok a) :
    decode root (Value.write (.mapping es)) = .ok a := by
  obtain ⟨node, hread, hdenotes⟩ := Document.read_writtenMapping hes hwords
  unfold decode
  rw [(isPrinted_writeMapping hwords).badOffset?_eq, hread]
  simp only [Option.getD_some, hroot _ node hdenotes, Bool.false_eq_true, if_false]

end Crosswalk.Yaml
