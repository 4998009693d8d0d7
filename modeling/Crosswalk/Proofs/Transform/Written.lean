/-
  Crosswalk.Proofs.Transform.Written
  ──────────────────────────────────────
  **CALLS AS THEY ARE WRITTEN.**

  A call is written with white space of any kind around its arguments, and
  with any text behind it.  What is read is its function and its arguments:

    • `IsArgument`: the texts that stay together as one argument,
    • `Slot`, `Layout`, `written`: an argument with white space around it, the
      rest of a call, and its text,
    • `callArguments?_written`: the arguments of a written call,
    • `read_writtenCall`: the expression that is read from it.
-/
import Crosswalk.Proofs.Text.Digits
import Crosswalk.Proofs.Transform.Call
import Crosswalk.Proofs.Transform.Literal
import Crosswalk.Proofs.Transform.Spacing

namespace Crosswalk.Transform

variable {f : Function} {s p : Text} {n : Nat} {i : Int}

/-! ## §1. Arguments with white space around them. -/

/-- A text of at least one character with no white space around it, whose quotes are closed and
whose parentheses match, and in which no comma stands outside of all of them. -/
structure IsArgument (s : Text) : Prop extends IsPiece s where
  some : s ≠ []
  trimmed : Text.trim s = s

theorem isArgument_iff : IsArgument s ↔ IsPiece s ∧ s ≠ [] ∧ Text.trim s = s :=
  ⟨fun h => ⟨h.toIsPiece, h.some, h.trimmed⟩, fun h => ⟨h.1, h.2.1, h.2.2⟩⟩

instance : Decidable (IsArgument s) :=
  decidable_of_iff _ isArgument_iff.symm

/-- An argument with white space around it. -/
structure Slot where
  before : Text
  argument : Text
  behind : Text
  blank_before : Text.blank before = true
  blank_behind : Text.blank behind = true
  isArgument : IsArgument argument

/-- The text between two commas. -/
def Slot.text (a : Slot) : Text :=
  a.before ++ a.argument ++ a.behind

theorem Slot.padded (a : Slot) : Padded a.argument a.text :=
  ⟨a.before, a.behind, a.blank_before, a.blank_behind, rfl⟩

theorem Slot.text_ne_nil (a : Slot) : a.text ≠ [] := by
  intro hnil
  have hpadded := a.padded
  rw [hnil] at hpadded
  exact a.isArgument.some hpadded.eq_nil

theorem Slot.trim_text (a : Slot) : Text.trim a.text = a.argument :=
  a.padded.trim_eq.trans a.isArgument.trimmed

/-- White space around an argument brings no new cut. -/
theorem Slot.isPiece (a : Slot) : IsPiece a.text := by
  obtain ⟨hclosed, hwhole⟩ := isPiece_iff.mp a.isArgument.toIsPiece
  -- padding keeps the number of pieces, which is one
  refine isPiece_iff.mpr ⟨hclosed.pad a.blank_before a.blank_behind, pieces_eq_of_length ?_⟩
  have hbefore := (padded_start a.blank_before a.argument).length_eq
  have hbehind := (padded_finish a.blank_behind (a.before ++ a.argument)).length_eq
  rw [Slot.text, ← hbehind, ← hbefore, hwhole]
  rfl

/-! ## §2. Calls. -/

variable {slots : List Slot}

/-- What stands around the arguments of a call: white space before it and behind the name, and any
text behind the last parenthesis. -/
structure Layout where
  lead : Text
  gap : Text
  rest : Text
  blank_lead : Text.blank lead = true
  blank_gap : Text.blank gap = true

/-- The text between the parentheses. -/
def slotsText (slots : List Slot) : Text :=
  [','].intercalate (slots.map Slot.text)

/-- The text of a call, up to the parenthesis that closes it. -/
def written (f : Function) (l : Layout) (slots : List Slot) : Text :=
  l.lead ++ (f.name ++ l.gap ++ '(' :: (slotsText slots ++ ')' :: l.rest))

/-- **The arguments between the parentheses.** -/
theorem splitArguments_slotsText (hslots : slots ≠ []) :
    Enclosed (slotsText slots) ∧ splitArguments (slotsText slots) = slots.map Slot.argument := by
  have htexts : slots.map Slot.text ≠ [] := by simpa using hslots
  obtain ⟨hclosed, hpieces⟩ := pieces_of_isPiece htexts fun p hp => by
    obtain ⟨a, -, rfl⟩ := List.mem_map.mp hp
    exact a.isPiece
  refine ⟨hclosed, ?_⟩
  have hlast : (slots.map Slot.text).getLast? ≠ some [] := by
    intro hnil
    obtain ⟨a, -, ha⟩ := List.mem_map.mp (List.mem_of_getLast? hnil)
    exact a.text_ne_nil ha
  rw [splitArguments_eq, slotsText, hpieces, dropEmptyLast_eq, if_neg hlast, List.map_map]
  exact List.map_congr_left fun a _ => a.trim_text

/-- The text of a call without the white space around it is the same call with less behind it. -/
theorem trim_written (f : Function) (l : Layout) (slots : List Slot) :
    Text.trim (written f l slots)
      = f.name ++ l.gap ++ '(' :: (slotsText slots ++ ')' :: Text.trimEnd l.rest) := by
  obtain ⟨c, name, hname, hc⟩ : ∃ c name, f.name = c :: name ∧ Text.isBlank c = false := by
    cases f <;> exact ⟨_, _, rfl, by decide⟩
  have htrim := Text.trim_append_cons l.blank_lead hc (name ++ l.gap ++ '(' :: slotsText slots)
    (c := ')') (by decide) l.rest
  rw [written, hname]
  simpa using htrim

theorem leading?_name (f : Function) (s : Text) : Function.leading? (f.name ++ s) = some f := by
  cases f <;> rfl

/-- **The arguments of a written call.** -/
theorem callArguments?_written (f : Function) (l : Layout) (hslots : slots ≠ []) :
    callArguments? f (Text.trim (written f l slots)) = some (slots.map Slot.argument) := by
  obtain ⟨hclosed, hsplit⟩ := splitArguments_slotsText hslots
  have hbody : callText? f (Text.trim (written f l slots)) = some (slotsText slots) :=
    callText?_eq_some.mpr ⟨l.gap, Text.trimEnd l.rest, l.blank_gap, hclosed, trim_written f l slots⟩
  rw [callArguments?_eq, hbody, Option.map_some, hsplit]

/-- **What is read from a written call.** -/
theorem read_writtenCall_eq (hf : f ≠ .responseCode ∧ f ≠ .sessionId) (l : Layout)
    (hslots : slots ≠ []) :
    Expression.read (written f l slots)
      = (ofCall? f (slots.map Slot.argument)).getD (.malformed f) := by
  have hleading : Function.leading? (Text.trim (written f l slots)) = some f := by
    rw [trim_written, List.append_assoc]
    exact leading?_name f _
  have hargs := callArguments?_written f l hslots
  unfold Expression.read
  simp only [hleading]
  cases f with
  | responseCode => exact absurd rfl hf.1
  | sessionId => exact absurd rfl hf.2
  | _ => simp only [hargs, Option.bind_some]

/-! ## §3. Two arguments. -/

section TwoArguments

variable {x y : Text} {e : Expression}

/-- The text is the pattern between two equal quotes; the pattern holds something, and no quote. -/
structure IsPattern (s p : Text) : Prop where
  quoted : ∃ q, isQuote q = true ∧ s = q :: p ++ [q]
  some : p ≠ []
  plain : ∀ c ∈ p, isQuote c = false

theorem ofTwo?_formatDateTime (hx : x ≠ []) (hy : y ≠ []) :
    ofTwo? .formatDateTime x y = some e ↔ ∃ p, IsPattern y p ∧ .formatDateTime x p = e := by
  have hsome : ¬ (x.isEmpty || y.isEmpty) = true := by simp [hx, hy]
  rw [ofTwo?, if_neg hsome, Option.map_eq_some_iff]
  have hpattern : ∀ p, (unquote? y).filter (fun p => !p.isEmpty && !p.any isQuote) = some p
      ↔ IsPattern y p := by
    intro p
    rw [Option.filter_eq_some_iff, unquote?_eq_some]
    constructor
    · rintro ⟨hquoted, hplain⟩
      obtain ⟨hp, hall⟩ : p ≠ [] ∧ ∀ c ∈ p, isQuote c = false := by simpa using hplain
      exact ⟨hquoted, hp, hall⟩
    · rintro ⟨hquoted, hp, hall⟩
      exact ⟨hquoted, by simpa using ⟨hp, hall⟩⟩
  simp only [hpattern]

theorem ofTwo?_substring (hx : x ≠ []) (hy : y ≠ []) : ofTwo? .substring x y = some e
    ↔ ∃ i, (Text.SignedDecimal y i ∧ -2 ^ 63 ≤ i ∧ i < 2 ^ 63) ∧ .substring x i = e := by
  have hsome : ¬ (x.isEmpty || y.isEmpty) = true := by simp [hx, hy]
  rw [ofTwo?, if_neg hsome, Option.map_eq_some_iff]
  simp only [Text.signed?_eq_some]

theorem ofTwo?_subtractDays (hx : x ≠ []) (hy : y ≠ []) : ofTwo? .subtractDays x y = some e
    ↔ ∃ n, (Text.Decimal y n ∧ n < 2 ^ 63) ∧ .subtractDays x n = e := by
  have hsome : ¬ (x.isEmpty || y.isEmpty) = true := by simp [hx, hy]
  have hdays : ∀ n, n ≤ mostDays ↔ n < 2 ^ 63 := by
    intro n
    show n ≤ 2 ^ 63 - 1 ↔ n < 2 ^ 63
    omega
  rw [ofTwo?, if_neg hsome, Option.map_eq_some_iff]
  simp only [Option.filter_eq_some_iff, Text.natural?_eq_some, decide_eq_true_eq, hdays]

/-- A call with two arguments is read as an expression when it makes one of them. -/
theorem read_writtenCall_two (hf : f ≠ .responseCode ∧ f ≠ .sessionId ∧ f ≠ .concat) (l : Layout)
    (a b : Slot) (he : e ≠ .malformed f) :
    Expression.read (written f l [a, b]) = e ↔ ofTwo? f a.argument b.argument = some e := by
  have hcall : ofCall? f [a.argument, b.argument] = ofTwo? f a.argument b.argument := by
    cases f with
    | responseCode => exact absurd rfl hf.1
    | sessionId => exact absurd rfl hf.2.1
    | concat => exact absurd rfl hf.2.2
    | _ => rfl
  rw [read_writtenCall_eq ⟨hf.1, hf.2.1⟩ l (List.cons_ne_nil _ _)]
  show (ofCall? f [a.argument, b.argument]).getD (.malformed f) = e ↔ _
  rw [hcall, Option.getD_eq_iff]
  constructor
  · rintro (hsome | ⟨-, hmalformed⟩)
    · exact hsome
    · exact absurd hmalformed.symm he
  · exact .inl

end TwoArguments

/-- **WRITTEN CALLS ARE READ BACK.**  With white space of any kind around them and any text behind
the call, a call of `concat` is read with its arguments.  A call of one of the other functions with
two arguments is read with the first one and with what the second one stands for: a number with an
optional sign, digits, or a pattern between quotes; and only with that. -/
theorem read_writtenCall (l : Layout) (a b : Slot) (slots : List Slot) :
    Expression.read (written .concat l (a :: slots)) = .concat ((a :: slots).map Slot.argument)
      ∧ (∀ i, Expression.read (written .substring l [a, b]) = .substring a.argument i
          ↔ Text.SignedDecimal b.argument i ∧ -2 ^ 63 ≤ i ∧ i < 2 ^ 63)
      ∧ (∀ n, Expression.read (written .subtractDays l [a, b]) = .subtractDays a.argument n
          ↔ Text.Decimal b.argument n ∧ n < 2 ^ 63)
      ∧ ∀ p, Expression.read (written .formatDateTime l [a, b]) = .formatDateTime a.argument p
          ↔ IsPattern b.argument p := by
  have ha := a.isArgument.some
  have hb := b.isArgument.some
  refine ⟨?_, ?_, ?_, ?_⟩
  · rw [read_writtenCall_eq (by decide) l (List.cons_ne_nil a slots)]
    rfl
  · intro i
    rw [read_writtenCall_two (by decide) l a b (by simp), ofTwo?_substring ha hb]
    simp
  · intro n
    rw [read_writtenCall_two (by decide) l a b (by simp), ofTwo?_subtractDays ha hb]
    simp
  · intro p
    rw [read_writtenCall_two (by decide) l a b (by simp), ofTwo?_formatDateTime ha hb]
    simp

/-- A nested call with a comma and a parenthesis in a literal, and an escaped quote. -/
def nestedSlot : Slot :=
  ⟨" ".toList, "f('a,)', \\')".toList, "\t".toList, by decide, by decide, by decide⟩

def numberSlot : Slot :=
  ⟨[], "-012".toList, "\n".toList, by decide, by decide, by decide⟩

/-- A call on a line of its own, with the beginning of another one behind it. -/
def nestedLayout : Layout :=
  ⟨"\n".toList, " ".toList, " + concat('".toList, by decide, by decide⟩

theorem read_writtenCall_nested :
    Expression.read "\nconcat ( f('a,)', \\')\t,-012\n) + concat('".toList
        = .concat ["f('a,)', \\')".toList, "-012".toList]
      ∧ Expression.read "\nsubstring ( f('a,)', \\')\t,-012\n) + concat('".toList
        = .substring "f('a,)', \\')".toList (-12) := by
  obtain ⟨hconcat, hsubstring, -, -⟩ :=
    read_writtenCall nestedLayout nestedSlot numberSlot [numberSlot]
  have hnumber : Text.SignedDecimal numberSlot.argument (-(12 : Nat)) :=
    .minus ⟨by decide, List.all_eq_true.mp (by decide), by decide⟩
  exact ⟨hconcat, (hsubstring (-12)).mpr ⟨hnumber, by omega, by omega⟩⟩

end Crosswalk.Transform
