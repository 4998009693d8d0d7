/-
  Crosswalk.Proofs.Transform.Substring
  ──────────────────────────────────────
  **THE END OF A TEXT.**

  A negative index counts characters from the end, any other one from the
  beginning, and a text that is too short is kept as it is:

    • `tail_suffix`, `length_tail`: the end of a text, for every index,
    • `apply_substring`: what a call of `substring` gives.
-/
import Crosswalk.Proofs.Transform.NumberCall
import Crosswalk.Transform.Evaluate

namespace Crosswalk.Transform

variable {r y : Text} {n : Int}

/-! ## §1. Suffixes. -/

theorem tail_suffix (x : Text) (n : Int) : tail x n <:+ x := by
  unfold tail
  split
  · exact List.drop_suffix _ x
  · split
    · exact List.drop_suffix _ x
    · exact List.suffix_rfl

/-- How many characters of a text an index leaves. -/
def lengthBehind (length : Nat) (n : Int) : Nat :=
  if n < 0 then min length n.natAbs
  else if n < length then length - n.natAbs
  else length

theorem length_tail (x : Text) (n : Int) : (tail x n).length = lengthBehind x.length n := by
  unfold tail lengthBehind
  by_cases hnegative : n < 0
  · rw [if_pos hnegative, if_pos hnegative, List.length_drop]
    omega
  · rw [if_neg hnegative, if_neg hnegative]
    by_cases hshort : n < x.length
    · rw [if_pos (by omega), if_pos hshort, List.length_drop]
    · rw [if_neg (by omega), if_neg hshort]

/-! ## §2. Calls. -/

/-- **SUBSTRING HAS AN ANSWER FOR EVERY INDEX.**  With an argument that stands for a text, a call of
`substring` gives the suffix of that text of the length that the index leaves; with one that stands
for nothing it gives the current value.  It never fails, whatever number of 64 bits the index is. -/
theorem apply_substring (s : Setting) (hr : IsArgument r) (hy : Text.SignedDecimal y n)
    (hlow : -2 ^ 63 ≤ n) (hhigh : n < 2 ^ 63) :
    (s.resolve? r = none → s.apply (numberCall .substring r y) = .ok s.value)
      ∧ ∀ x, s.resolve? r = some x →
        ∃ back, s.apply (numberCall .substring r y) = .ok (some back) ∧ back <:+ x
          ∧ back.length = lengthBehind x.length n := by
  have happly : s.apply (numberCall .substring r y) = .ok (s.ending? r n) := by
    show s.evaluate (Expression.read (numberCall .substring r y)) = _
    rw [read_substring hr hy hlow hhigh]
    rfl
  constructor
  · intro hnone
    rw [happly, Setting.ending?, hnone]
    rfl
  · intro x hx
    refine ⟨tail x n, ?_, tail_suffix x n, length_tail x n⟩
    rw [happly, Setting.ending?, hx]
    rfl

/-- A field without a message, at noon. -/
def lonely : Setting :=
  ⟨⟨⟨2024, 2, 29⟩, 12, 0, 0, 0⟩, some "kept".toList, none⟩

/-- The least number of 64 bits for a text of characters of several bytes, and a field that is not
there. -/
theorem apply_substring_least :
    lonely.apply "substring('ä€𝄞', -9223372036854775808)".toList = .ok (some "ä€𝄞".toList)
      ∧ lonely.apply "substring(source.a, 2)".toList = .ok (some "kept".toList) := by
  have hleast : "substring('ä€𝄞', -9223372036854775808)".toList
      = numberCall .substring "'ä€𝄞'".toList (Text.ofInt (-2 ^ 63)) := by decide
  have htwo : "substring(source.a, 2)".toList
      = numberCall .substring "source.a".toList (Text.ofInt 2) := by decide
  rw [hleast, htwo]
  constructor
  · obtain ⟨-, hsome⟩ := apply_substring lonely (r := "'ä€𝄞'".toList) (by decide)
      (Text.signedDecimal_ofInt (-2 ^ 63)) (by decide) (by decide)
    have hresolved : lonely.resolve? "'ä€𝄞'".toList = some "ä€𝄞".toList := by decide
    obtain ⟨back, happly, hsuffix, hlength⟩ := hsome _ hresolved
    rwa [hsuffix.eq_of_length hlength] at happly
  · obtain ⟨hnone, -⟩ := apply_substring lonely (r := "source.a".toList) (by decide)
      (Text.signedDecimal_ofInt 2) (by decide) (by decide)
    exact hnone (by decide)

end Crosswalk.Transform
