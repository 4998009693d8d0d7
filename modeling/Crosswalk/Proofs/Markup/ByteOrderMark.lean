/-
  Crosswalk.Proofs.Markup.ByteOrderMark
  ──────────────────────────────────────
  **A BYTE ORDER MARK BEFORE A DOCUMENT.**

  The mark is dropped before a text is read, so with it the same document
  comes of the text, or a fault with the same cause.  A place in the text is
  counted from behind the mark, but its line and column are looked up in the
  text with the mark: the place is put three bytes too early, which is on an
  earlier line when its own line begins within these bytes.  Only the end of
  the text is counted with the mark.

    • `exists_fails`: a reading fails at one of its pieces, or at the end,
    • `Fails.ofEnd_iff`: the cause tells which of both,
    • `line_behindMark`: the line of an offset in a text with the mark,
    • `read_behindMark`: a text with the mark and without it.
-/
import Crosswalk.Proofs.Markup.Inside
import Crosswalk.Proofs.Text.Position

namespace Crosswalk.Markup

variable {b : Build} {s content : Text} {cause : Cause} {place : Place} {f : Fault}

/-! ## §1. Where a reading fails. -/

/-- What is wrong at the end of a text, and never at a piece before it. -/
def Cause.OfEnd : Cause → Prop
  | .unclosed _ => True
  | .noRoot => True
  | _ => False

/-- With these elements read so far, the rest of a text fails at its front. -/
inductive Fails (b : Build) (s : Text) : Cause → Place → Prop
  | scan {fault : TokenFault} {ahead : Text} (scanned : scan s = .fault fault ahead) :
      Fails b s (.token fault) (.before ahead)
  | take {cause : Cause} {rest : Text} {t : Token} (scanned : scan s = .token t rest)
      (refused : b.take t = .error cause) : Fails b s cause (.before s)
  | finish {cause : Cause} (scanned : scan s = .done) (refused : b.finish = .error cause) :
      Fails b s cause .atEnd

/-- **A reading that fails does so at the front of what is left of its text.** -/
theorem exists_fails (h : readFrom b s = .error (cause, place)) :
    ∃ b' s', Fails b' s' cause place := by
  fun_induction readFrom b s with
  | case1 b s scanned cause' refused =>
      obtain ⟨rfl, rfl⟩ := Prod.mk.inj (Except.error.inj h)
      exact ⟨b, s, .finish scanned refused⟩
  | case2 => cases h
  | case3 b s fault ahead scanned =>
      obtain ⟨rfl, rfl⟩ := Prod.mk.inj (Except.error.inj h)
      exact ⟨b, s, .scan scanned⟩
  | case4 b s t rest scanned cause' refused =>
      obtain ⟨rfl, rfl⟩ := Prod.mk.inj (Except.error.inj h)
      exact ⟨b, s, .take scanned refused⟩
  | case5 b s t rest scanned b' taken hlt ih => exact ih h

theorem not_ofEnd_of_add {e : Element} (h : b.add e = .error cause) : ¬ cause.OfEnd := by
  obtain ⟨frames, root⟩ := b
  cases frames with
  | cons f fs => exact absurd h nofun
  | nil =>
      cases root with
      | none => exact absurd h nofun
      | some root =>
          obtain rfl := Except.error.inj h
          exact id

theorem not_ofEnd_of_addText {t : Text} (h : b.addText t = .error cause) : ¬ cause.OfEnd := by
  obtain ⟨frames, root⟩ := b
  cases frames with
  | cons f fs => exact absurd h nofun
  | nil =>
      unfold Build.addText at h
      by_cases ht : Text.blank t = true
      · simp [ht] at h
      · simp only [ht] at h
        obtain rfl := Except.error.inj h
        exact id

theorem not_ofEnd_of_openElement {body : Text} {scope : Scope}
    (h : openElement body scope = .error cause) : ¬ cause.OfEnd := by
  unfold openElement at h
  cases hattrs : tagAttributes body with
  | error fault =>
      rw [hattrs] at h
      obtain rfl := Except.error.inj h
      exact id
  | ok attrs =>
      simp only [hattrs] at h
      split at h
      next => cases h
      next =>
        -- a prefix without a binding, unless there is no prefix
        split at h
        next => cases h
        next =>
          obtain rfl := Except.error.inj h
          exact id

/-- No piece is refused for what is wrong at the end. -/
theorem not_ofEnd_of_take {t : Token} (h : b.take t = .error cause) : ¬ cause.OfEnd := by
  cases t with
  | aside => exact absurd h nofun
  | text raw =>
      cases hs : unescape raw with
      | error fault =>
          simp only [Build.take, hs] at h
          obtain rfl := Except.error.inj h
          exact id
      | ok s =>
          simp only [Build.take, hs] at h
          exact not_ofEnd_of_addText h
  | «section» s => exact not_ofEnd_of_addText h
  | start body =>
      cases hopen : openElement body b.scope with
      | error cause' =>
          simp only [Build.take, hopen] at h
          obtain rfl := Except.error.inj h
          exact not_ofEnd_of_openElement hopen
      | ok frame => simp [Build.take, hopen] at h
  | empty body =>
      cases hopen : openElement body b.scope with
      | error cause' =>
          simp only [Build.take, hopen] at h
          obtain rfl := Except.error.inj h
          exact not_ofEnd_of_openElement hopen
      | ok frame =>
          simp only [Build.take, hopen] at h
          exact not_ofEnd_of_add h
  | close body =>
      cases hframes : b.frames with
      | nil =>
          simp only [Build.take, hframes] at h
          obtain rfl := Except.error.inj h
          exact id
      | cons frame below =>
          simp only [Build.take, hframes] at h
          by_cases hname : closeName body = frame.name
          · rw [if_pos hname] at h
            exact not_ofEnd_of_add h
          · rw [if_neg hname] at h
            obtain rfl := Except.error.inj h
            exact id

theorem ofEnd_of_finish (h : b.finish = .error cause) : cause.OfEnd := by
  obtain ⟨frames, root⟩ := b
  cases frames with
  | cons f fs =>
      obtain rfl := Except.error.inj h
      trivial
  | nil =>
      cases root with
      | some root => exact absurd h nofun
      | none =>
          obtain rfl := Except.error.inj h
          trivial

/-- **The cause of a fault tells whether it lies at the end.** -/
theorem Fails.ofEnd_iff (h : Fails b s cause place) : cause.OfEnd ↔ place = .atEnd := by
  cases h with
  | scan scanned => exact ⟨False.elim, nofun⟩
  | take scanned refused => exact ⟨fun h => absurd h (not_ofEnd_of_take refused), nofun⟩
  | finish scanned refused => exact ⟨fun _ => rfl, fun _ => ofEnd_of_finish refused⟩

/-! ## §2. Faults with their places. -/

/-- A cause at its place, with the line and the column in a text. -/
def Place.fault (content : Text) (cause : Cause) (place : Place) : Fault :=
  let position := Text.lineColumn (Text.bytes content) (place.offset content)
  ⟨position.1, position.2, cause⟩

theorem read_eq_error_iff : read content = .error f
    ↔ ∃ cause place, readFrom .initial (dropMark content) = .error (cause, place)
      ∧ place.fault content cause = f := by
  unfold read
  cases readFrom .initial (dropMark content) with
  | ok e => simp
  | error refused =>
      obtain ⟨cause, place⟩ := refused
      simp [Place.fault]

/-! ## §3. The byte order mark. -/

/-- The character that may stand before a text and is no part of it. -/
def byteOrderMark : Char :=
  Char.ofNat 0xFEFF

theorem dropMark_cons (content : Text) : dropMark (byteOrderMark :: content) = content := by
  simp [dropMark, Text.dropLead, Text.after?, List.isPrefixOf?, byteOrderMark]

theorem dropMark_eq_self (h : content.head? ≠ some byteOrderMark) : dropMark content = content := by
  rcases eq_dropMark content with hplain | hmarked
  · exact hplain.symm
  · rw [hmarked] at h
    exact absurd rfl h

theorem length_bytes_behindMark (content : Text) :
    (Text.bytes (byteOrderMark :: content)).length = (Text.bytes content).length + 3 := by
  rw [Text.bytes_cons, List.length_append, Nat.add_comm]
  rfl

/-- **An offset in a text with the mark is on the line of the offset three bytes before it in the text
without the mark.** -/
theorem line_behindMark (content : Text) (offset : Nat) :
    (Text.lineColumn (Text.bytes (byteOrderMark :: content)) offset).1
      = (Text.lineColumn (Text.bytes content) (offset - 3)).1 := by
  rw [Text.line_eq, Text.line_eq]
  cases offset with
  | zero => cases content <;> rfl
  | succ offset =>
      -- the mark is no newline, and three bytes long
      exact congrArg (· + 1) (Nat.zero_add _)

/-- The end of a text is on the same line with the mark. -/
theorem line_fault_atEnd (content : Text) (cause : Cause) :
    (Place.atEnd.fault (byteOrderMark :: content) cause).line
      = (Place.atEnd.fault content cause).line := by
  show (Text.lineColumn _ (Text.byteSize (byteOrderMark :: content))).1
    = (Text.lineColumn _ (Text.byteSize content)).1
  rw [← Text.length_bytes, length_bytes_behindMark, line_behindMark, Text.length_bytes,
    Nat.add_sub_cancel]

/-- A place before the end is put three bytes too early. -/
theorem line_fault_before (h : dropMark content = content) (cause : Cause) (ahead : Text) :
    ((Place.before ahead).fault (byteOrderMark :: content) cause).line
      = (Text.lineColumn (Text.bytes content) ((Place.before ahead).offset content - 3)).1 := by
  show (Text.lineColumn _ (Text.offsetOf (dropMark (byteOrderMark :: content)) ahead)).1
    = (Text.lineColumn _ (Text.offsetOf (dropMark content) ahead - 3)).1
  rw [dropMark_cons, h, line_behindMark]

/-- **A BYTE ORDER MARK CHANGES NO DOCUMENT AND NO CAUSE.**  The line of a fault is the same or an
earlier one.  It is the same exactly when the fault is one at the end, or lies in the first line or
behind the third column. -/
theorem read_behindMark (content : Text) (h : content.head? ≠ some byteOrderMark) :
    (∀ e, read (byteOrderMark :: content) = .ok e ↔ read content = .ok e)
    ∧ ∀ f g, read (byteOrderMark :: content) = .error f → read content = .error g →
      f.cause = g.cause ∧ f.line ≤ g.line
        ∧ (f.line = g.line ↔ g.cause.OfEnd ∨ g.line = 1 ∨ 3 < g.column) := by
  have hplain := dropMark_eq_self h
  constructor
  · intro e
    rw [read_eq_ok_iff, read_eq_ok_iff, dropMark_cons, hplain]
  · intro f g hf hg
    obtain ⟨cause, place, hread, rfl⟩ := read_eq_error_iff.mp hf
    obtain ⟨cause', place', hread', rfl⟩ := read_eq_error_iff.mp hg
    -- the same text is read both times, so it fails for the same cause at the same place
    rw [dropMark_cons] at hread
    rw [hplain, hread] at hread'
    obtain ⟨rfl, rfl⟩ := Prod.mk.inj (Except.error.inj hread')
    obtain ⟨b, s, hfails⟩ := exists_fails hread
    have hend := hfails.ofEnd_iff
    refine ⟨rfl, ?_⟩
    cases place with
    | atEnd =>
        have hcause : cause.OfEnd := hend.mpr rfl
        rw [line_fault_atEnd]
        exact ⟨Nat.le_refl _, fun _ => .inl hcause, fun _ => rfl⟩
    | before ahead =>
        have hcause : ¬ cause.OfEnd := fun hcause => absurd (hend.mp hcause) nofun
        have hoffset : (Place.before ahead).offset content ≤ (Text.bytes content).length := by
          rw [Text.length_bytes]
          show Text.byteSize (dropMark content) - Text.byteSize ahead ≤ Text.byteSize content
          rw [hplain]
          exact Nat.sub_le _ _
        -- three bytes before the place is on its line, or on one of the lines before
        rw [line_fault_before hplain]
        refine ⟨Text.line_mono _ (Nat.sub_le _ 3), (Text.line_sub_eq_iff 3 hoffset).trans ?_⟩
        exact ⟨.inr, fun h => h.resolve_left hcause⟩

/-- An end tag with another name, at the front of the second line. -/
def secondLine : Text :=
  "<R>\n</B>".toList

/-- With the mark the end tag is put on the first line. -/
theorem read_behindMark_secondLine :
    secondLine.head? ≠ some byteOrderMark
    ∧ (∃ f g, read (byteOrderMark :: secondLine) = .error f ∧ read secondLine = .error g
      ∧ f.cause = g.cause ∧ f.line ≠ g.line ∧ g.line = 2) := by
  have hhead : secondLine.head? ≠ some byteOrderMark := by decide
  have hmarked : read (byteOrderMark :: secondLine)
      = .error ⟨1, 5, .mismatchedClose ['R'] ['B']⟩ := by decide +kernel
  have hplain : read secondLine = .error ⟨2, 1, .mismatchedClose ['R'] ['B']⟩ := by decide +kernel
  obtain ⟨hcause, -, hline⟩ := (read_behindMark secondLine hhead).2 _ _ hmarked hplain
  refine ⟨hhead, _, _, hmarked, hplain, hcause, ?_, rfl⟩
  intro hsame
  rcases hline.mp hsame with hend | hfirst | hcolumn
  · exact hend
  · cases hfirst
  · exact absurd hcolumn (by decide)

end Crosswalk.Markup
