/-
  Crosswalk.Proofs.Text.Position
  ──────────────────────────────────────
  **A LINE AND A COLUMN STAND FOR ONE BYTE OFFSET.**

  From one offset to the next either the column grows or a new line begins
  (`lineColumn_succ`), so positions are in the order of their offsets.  Only
  the character for a new line has a newline among its bytes, so the lines of
  the bytes are those of the text (`splitOn_bytes`), and what is behind the
  last newline is what the column counts:

    • `strictMonoOn_lineColumn`: positions in order,
    • `line_sub_eq_iff`: when some bytes earlier is on the same line,
    • `lineStart_add_column`: the offset that a line and a column stand for,
    • `lineColumn_faithful`: all of this for a text.
-/
import Mathlib.Data.List.Induction
import Mathlib.Data.List.TakeWhile
import Mathlib.Data.Nat.SuccPred
import Mathlib.Data.Prod.Lex
import Mathlib.Order.Interval.Set.Monotone
import Crosswalk.Text.Position

namespace Crosswalk.Text

variable {s : Text} {c : Char} {bs : List UInt8} {m n offset : Nat}

/-! ## §1. The bytes of a text. -/

theorem length_bytes (s : Text) : (bytes s).length = byteSize s := by
  unfold bytes byteSize
  rw [List.length_flatMap, ← List.sum_eq_foldl]
  simp only [String.length_utf8EncodeChar]

theorem bytes_append (s t : Text) : bytes (s ++ t) = bytes s ++ bytes t :=
  List.flatMap_append

theorem bytes_cons (c : Char) (s : Text) : bytes (c :: s) = String.utf8EncodeChar c ++ bytes s :=
  List.flatMap_cons

theorem bytes_newline (s : Text) : bytes ('\n' :: s) = newline :: bytes s := by
  rw [bytes_cons]
  rfl

/-- No other character has a newline among its bytes: a single byte is the code of its character,
and the bytes of longer ones are no ASCII characters. -/
theorem newline_not_mem_utf8EncodeChar (h : c ≠ '\n') : newline ∉ String.utf8EncodeChar c := by
  have hcode : c.toNat ≠ 10 := fun hten => h (Char.toNat_inj.mp hten)
  have hval : c.val.toNat = c.toNat := rfl
  unfold String.utf8EncodeChar newline
  simp only [hval]
  split_ifs <;> simp [← UInt8.toNat_inj] <;> omega

/-- The character for a new line is the only one with a newline among its bytes. -/
theorem newline_mem_bytes : newline ∈ bytes s ↔ '\n' ∈ s := by
  unfold bytes
  rw [List.mem_flatMap]
  constructor
  · rintro ⟨c, hc, hmem⟩
    by_contra hnone
    have hne : c ≠ '\n' := by
      rintro rfl
      exact hnone hc
    exact newline_not_mem_utf8EncodeChar hne hmem
  · intro hmem
    exact ⟨'\n', hmem, List.mem_singleton.mpr rfl⟩

/-! ## §2. From one offset to the next. -/

theorem lastLine_concat (bs : List UInt8) (b : UInt8) :
    lastLine (bs ++ [b]) = if b = newline then [] else lastLine bs ++ [b] := by
  unfold lastLine
  by_cases hb : b = newline <;> simp [hb]

theorem lineColumn_zero (bs : List UInt8) : lineColumn bs 0 = (1, 1) := rfl

/-- **Behind a newline a line begins, behind any other byte the column is the next one.** -/
theorem lineColumn_succ (h : n < bs.length) :
    lineColumn bs (n + 1) = if bs[n] = newline then ((lineColumn bs n).1 + 1, 1)
      else ((lineColumn bs n).1, (lineColumn bs n).2 + 1) := by
  unfold lineColumn
  simp only [← List.take_append_getElem h, lastLine_concat, List.count_append]
  by_cases hb : bs[n] = newline <;> simp [hb]

/-- An offset beyond the end stands for the end. -/
theorem lineColumn_of_length_le (h : bs.length ≤ offset) :
    lineColumn bs offset = lineColumn bs bs.length := by
  unfold lineColumn
  rw [List.take_of_length_le h, List.take_length]

/-- **Positions are in the order of their offsets.** -/
theorem strictMonoOn_lineColumn (bs : List UInt8) :
    StrictMonoOn (fun offset => toLex (lineColumn bs offset)) (Set.Iic bs.length) := by
  apply strictMonoOn_Iic_of_lt_succ
  intro n hn
  show toLex (lineColumn bs n) < toLex (lineColumn bs (n + 1))
  rw [Prod.Lex.toLex_lt_toLex, lineColumn_succ hn]
  by_cases hb : bs[n] = newline
  · rw [if_pos hb]
    exact .inl (Nat.lt_succ_self _)
  · rw [if_neg hb]
    exact .inr ⟨rfl, Nat.lt_succ_self _⟩

theorem line_mono (bs : List UInt8) (h : m ≤ n) : (lineColumn bs m).1 ≤ (lineColumn bs n).1 :=
  Nat.succ_le_succ ((List.take_sublist_take_left h).count_le newline)

/-- **Some bytes earlier is on the same line** when that line is the first one, or as many bytes of
it were passed. -/
theorem line_sub_eq_iff : ∀ {n : Nat} (k : Nat), n ≤ bs.length →
    ((lineColumn bs (n - k)).1 = (lineColumn bs n).1
      ↔ (lineColumn bs n).1 = 1 ∨ k < (lineColumn bs n).2) := by
  -- going back from `n + 1` by `k + 1` bytes is going back from `n` by `k`
  intro n
  induction n with
  | zero =>
      intro k _
      rw [Nat.zero_sub, lineColumn_zero]
      simp
  | succ n ih =>
      intro k hn
      cases k with
      | zero =>
          have hcolumn : 0 < (lineColumn bs (n + 1)).2 := Nat.succ_pos _
          simp [hcolumn]
      | succ k =>
          have hbefore := ih k (Nat.le_of_succ_le hn)
          rw [Nat.add_sub_add_right, lineColumn_succ hn]
          by_cases hb : bs[n] = newline
          · -- the line begins here, and earlier bytes are on the lines before it
            have hle := line_mono bs (Nat.sub_le n k)
            have hpos : 0 < (lineColumn bs n).1 := Nat.succ_pos _
            rw [if_pos hb]
            simp only
            omega
          · rw [if_neg hb]
            simp only
            rw [hbefore]
            omega

/-! ## §3. Where a line starts. -/

/-- The offset at which a line starts, behind the lines before it and their newlines.  Lines count
from one. -/
def lineStart (s : Text) (line : Nat) : Nat :=
  (((s.splitOn '\n').take (line - 1)).map (fun l => byteSize l + 1)).sum

/-- Lines with their newlines make up the whole, and one newline more. -/
theorem sum_splitOn : ∀ bs : List UInt8,
    ((bs.splitOn newline).map (fun l => l.length + 1)).sum = bs.length + 1 := by
  intro bs
  induction bs with
  | nil => rfl
  | cons b bs ih =>
      rw [List.splitOn_cons_eq_if_modifyHead]
      by_cases hb : b = newline
      · rw [if_pos (beq_iff_eq.mpr hb), List.map_cons, List.sum_cons, ih, List.length_cons]
        exact Nat.add_comm _ _
      · -- the byte belongs to the first line of the others
        obtain ⟨first, rest, hsplit⟩ := List.exists_cons_of_ne_nil (List.splitOn_ne_nil newline bs)
        rw [hsplit, List.map_cons, List.sum_cons] at ih
        rw [if_neg (by simpa using hb), hsplit, List.modifyHead_cons, List.map_cons, List.sum_cons,
          List.length_cons, List.length_cons]
        omega

/-- There is one line more than there are newlines. -/
theorem length_splitOn : ∀ bs : List UInt8,
    (bs.splitOn newline).length = bs.count newline + 1 := by
  intro bs
  induction bs with
  | nil => rfl
  | cons b bs ih =>
      rw [List.splitOn_cons_eq_if_modifyHead]
      by_cases hb : b = newline <;> simp [hb, ih]

theorem newline_not_mem_lastLine (bs : List UInt8) : newline ∉ lastLine bs := by
  intro hmem
  exact absurd (List.mem_takeWhile_imp (List.mem_reverse.mp hmem)) (by simp)

/-- The last line is all there is, or a newline stands before it. -/
theorem lastLine_cases (bs : List UInt8) :
    lastLine bs = bs ∨ ∃ front, bs = front ++ newline :: lastLine bs := by
  induction bs using List.reverseRecOn with
  | nil => exact .inl rfl
  | append_singleton bs b ih =>
      rw [lastLine_concat]
      by_cases hb : b = newline
      · rw [if_pos hb, hb]
        exact .inr ⟨bs, rfl⟩
      · rw [if_neg hb]
        rcases ih with hfirst | ⟨front, hfront⟩
        · exact .inl (by rw [hfirst])
        · refine .inr ⟨front, ?_⟩
          conv_lhs => rw [hfront]
          simp

/-- **The offset behind a line's start is what its column counts.** -/
theorem sum_take_splitOn_add (h : offset ≤ bs.length) :
    (((bs.splitOn newline).take ((lineColumn bs offset).1 - 1)).map (fun l => l.length + 1)).sum
      + (lineColumn bs offset).2 = offset + 1 := by
  have hlength : (bs.take offset).length = offset := List.length_take_of_le h
  show (((bs.splitOn newline).take ((bs.take offset).count newline)).map _).sum
    + ((lastLine (bs.take offset)).length + 1) = offset + 1
  have hnone := List.count_eq_zero.mpr (newline_not_mem_lastLine (bs.take offset))
  rcases lastLine_cases (bs.take offset) with hfirst | ⟨front, hfront⟩
  · -- on the first line no line comes before
    rw [hfirst] at hnone ⊢
    rw [hnone, hlength]
    simp
  · -- the lines before the last newline are those of what stands before it
    have hbs : bs = front ++ newline :: (lastLine (bs.take offset) ++ bs.drop offset) := by
      conv_lhs => rw [← List.take_append_drop offset bs, hfront]
      simp
    have hcount : (bs.take offset).count newline = (front.splitOn newline).length := by
      rw [hfront, List.count_append, List.count_cons_self, hnone, length_splitOn]
    have hsplit : bs.splitOn newline = front.splitOn newline
        ++ (lastLine (bs.take offset) ++ bs.drop offset).splitOn newline := by
      conv_lhs => rw [hbs]
      exact List.splitOn_append_cons_self _ _
    rw [hcount, hsplit, List.take_left, sum_splitOn]
    rw [hfront, List.length_append, List.length_cons] at hlength
    omega

/-- **The lines of the bytes are those of the text.** -/
theorem splitOn_bytes (s : Text) : (bytes s).splitOn newline = (s.splitOn '\n').map bytes := by
  -- the induction is on the text behind its first newline
  induction hn : s.length using Nat.strong_induction_on generalizing s with
  | _ n ih =>
      by_cases hmem : '\n' ∈ s
      · obtain ⟨front, behind, rfl, hfront⟩ := List.eq_append_cons_of_mem hmem
        have hfront' : newline ∉ bytes front := fun h => hfront (newline_mem_bytes.mp h)
        have hlt : behind.length < n := by
          rw [← hn, List.length_append, List.length_cons]
          omega
        rw [bytes_append, bytes_newline, List.splitOn_append_cons_self_of_not_mem hfront',
          List.splitOn_append_cons_self_of_not_mem hfront, ih _ hlt behind rfl, List.map_cons]
      · have hnone : newline ∉ bytes s := fun h => hmem (newline_mem_bytes.mp h)
        rw [List.splitOn_eq_singleton hnone, List.splitOn_eq_singleton hmem]
        rfl

/-- **The offset is the start of its line and what the column counts.** -/
theorem lineStart_add_column (h : offset ≤ byteSize s) :
    lineStart s (lineColumn (bytes s) offset).1 + (lineColumn (bytes s) offset).2 = offset + 1 := by
  rw [← length_bytes] at h
  rw [← sum_take_splitOn_add h, splitOn_bytes, ← List.map_take, List.map_map]
  unfold lineStart
  simp only [Function.comp_def, length_bytes]

/-! ## §4. The number of a line. -/

/-- The number of newlines among the characters that start before an offset. -/
def newlinesBefore : Text → Nat → Nat
  | [], _ => 0
  | _ :: _, 0 => 0
  | c :: s, offset + 1 =>
    (if c = '\n' then 1 else 0) + newlinesBefore s (offset + 1 - c.utf8Size)

theorem count_take_bytes : ∀ (s : Text) (offset : Nat),
    ((bytes s).take offset).count newline = newlinesBefore s offset := by
  intro s
  induction s with
  | nil => intro offset; simp [bytes, newlinesBefore]
  | cons c s ih =>
      intro offset
      cases offset with
      | zero => rfl
      | succ offset =>
          rw [newlinesBefore, ← ih]
          by_cases hc : c = '\n'
          · subst hc
            rw [bytes_newline, List.take_succ_cons, List.count_cons_self, if_pos rfl, Nat.add_comm]
            rfl
          · -- none of the bytes of the character counts, whether all of them are taken or not
            have hnone : ((String.utf8EncodeChar c).take (offset + 1)).count newline = 0 :=
              List.count_eq_zero.mpr fun h =>
                newline_not_mem_utf8EncodeChar hc (List.mem_of_mem_take h)
            rw [bytes_cons, List.take_append, List.count_append, hnone,
              String.length_utf8EncodeChar, if_neg hc]

theorem line_eq (s : Text) (offset : Nat) :
    (lineColumn (bytes s) offset).1 = newlinesBefore s offset + 1 :=
  congrArg Nat.succ (count_take_bytes s offset)

/-! ## §5. Positions in a text. -/

/-- **A LINE AND A COLUMN STAND FOR ONE BYTE OFFSET OF A TEXT.**  They grow with the offset, the
line is one more than the number of newlines before the offset, and the offset is the start of the
line and the column less one.  An offset beyond the end stands for the end. -/
theorem lineColumn_faithful (s : Text) :
    (∀ m n, m < n → n ≤ byteSize s →
      toLex (lineColumn (bytes s) m) < toLex (lineColumn (bytes s) n))
    ∧ (∀ offset ≤ byteSize s,
      (lineColumn (bytes s) offset).1 = newlinesBefore s offset + 1
      ∧ lineStart s (lineColumn (bytes s) offset).1 + (lineColumn (bytes s) offset).2 = offset + 1)
    ∧ ∀ offset, byteSize s ≤ offset →
      lineColumn (bytes s) offset = lineColumn (bytes s) (byteSize s) := by
  refine ⟨?_, ?_, ?_⟩
  · intro m n hmn hn
    rw [← length_bytes] at hn
    exact strictMonoOn_lineColumn (bytes s) (hmn.le.trans hn) hn hmn
  · intro offset h
    exact ⟨line_eq s offset, lineStart_add_column h⟩
  · intro offset h
    rw [← length_bytes] at h ⊢
    exact lineColumn_of_length_le h

/-- A character of two bytes, an empty line and another character. -/
def emptyLine : Text :=
  "é\n\nx".toList

/-- The offsets before and behind the empty line, and one beyond the end. -/
theorem lineColumn_faithful_emptyLine :
    3 < 4 ∧ 4 ≤ byteSize emptyLine ∧ byteSize emptyLine ≤ 9
    ∧ toLex (lineColumn (bytes emptyLine) 3) < toLex (lineColumn (bytes emptyLine) 4)
    ∧ lineColumn (bytes emptyLine) 4 = (3, 1)
    ∧ (3 = newlinesBefore emptyLine 4 + 1 ∧ lineStart emptyLine 3 + 1 = 4 + 1)
    ∧ lineColumn (bytes emptyLine) 9 = (3, 2) := by
  have hinside : 4 ≤ byteSize emptyLine := by decide
  have hbeyond : byteSize emptyLine ≤ 9 := by decide
  obtain ⟨hlt, hplace, hend⟩ := lineColumn_faithful emptyLine
  exact ⟨by decide, hinside, hbeyond, hlt 3 4 (by decide) hinside, by decide,
    hplace 4 hinside, hend 9 hbeyond⟩

end Crosswalk.Text
