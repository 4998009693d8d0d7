/-
  Crosswalk.Proofs.Text.Numeral
  ──────────────────────────────────────
  **NUMBERS AS THEY ARE WRITTEN.**

  What is written for a number is read as that number, and digits may be put
  before it and taken off behind it:

    • `Decimal.append`, `Decimal.front`: digits put together and cut apart,
    • `decimal_ofNat`, `signedDecimal_ofInt`: the numbers as they are written,
    • `Fixed`, `fixed_padZero`, `Fixed.take`: digits of a fixed width,
    • `Fixed.unique`: there is one way to write a number in them.
-/
import Mathlib.Data.Nat.Digits.Lemmas
import Crosswalk.Proofs.Text.Digits

namespace Crosswalk.Text

variable {s t : Text} {c : Char} {m n width : Nat}

theorem decimal_iff : Decimal s n ↔ s ≠ [] ∧ s.all Char.isDigit = true
    ∧ Nat.ofDigits 10 (s.reverse.map fun c => c.toNat - 48) = n :=
  ⟨fun h => ⟨h.some, List.all_eq_true.mpr h.digits, h.value⟩,
    fun h => ⟨h.1, List.all_eq_true.mp h.2.1, h.2.2⟩⟩

instance : Decidable (Decimal s n) :=
  decidable_of_iff _ decimal_iff.symm

/-! ## §1. Digits behind digits. -/

theorem decimal_singleton (hc : c.isDigit = true) : Decimal [c] (c.toNat - 48) where
  some := List.cons_ne_nil c []
  digits := by
    intro d hd
    rw [List.mem_singleton.mp hd]
    exact hc
  value := Nat.ofDigits_singleton

/-- **Digits behind digits.**  Each of them makes the number before it ten times as great. -/
theorem Decimal.append (hs : Decimal s m) (ht : Decimal t n) :
    Decimal (s ++ t) (m * 10 ^ t.length + n) where
  some := by simp [hs.some]
  digits := by
    intro c hc
    rcases List.mem_append.mp hc with hc | hc
    · exact hs.digits c hc
    · exact ht.digits c hc
  value := by
    rw [List.reverse_append, List.map_append, Nat.ofDigits_append, hs.value, ht.value,
      List.length_map, List.length_reverse, Nat.mul_comm, Nat.add_comm]

theorem value_lt_ten (hc : c.isDigit = true) : c.toNat - 48 < 10 := by
  have hnine : c.toNat ≤ 57 := of_decide_eq_true (Bool.and_eq_true_iff.mp hc).2
  omega

theorem le_toNat_of_isDigit (hc : c.isDigit = true) : 48 ≤ c.toNat :=
  of_decide_eq_true (Bool.and_eq_true_iff.mp hc).1

theorem Decimal.values_lt (h : Decimal s n) :
    ∀ x ∈ s.reverse.map (fun c => c.toNat - 48), x < 10 := by
  intro x hx
  obtain ⟨c, hc, rfl⟩ := List.mem_map.mp hx
  exact value_lt_ten (h.digits c (List.mem_reverse.mp hc))

theorem Decimal.lt (h : Decimal s n) : n < 10 ^ s.length := by
  have hbound := Nat.ofDigits_lt_base_pow_length (by omega : 1 < 10) h.values_lt
  rwa [h.value, List.length_map, List.length_reverse] at hbound

theorem exists_decimal (hs : s ≠ []) (hdigits : ∀ c ∈ s, c.isDigit = true) : ∃ n, Decimal s n :=
  ⟨_, hs, hdigits, rfl⟩

/-- Digits stand for one number. -/
theorem Decimal.unique (h : Decimal s m) (h' : Decimal s n) : m = n :=
  h.value.symm.trans h'.value

/-- **The digits before others** stand for the number without them. -/
theorem Decimal.front (h : Decimal (s ++ t) n) (hs : s ≠ []) (ht : t ≠ []) :
    Decimal s (n / 10 ^ t.length) := by
  obtain ⟨a, ha⟩ := exists_decimal hs fun c hc => h.digits c (List.mem_append_left t hc)
  obtain ⟨b, hb⟩ := exists_decimal ht fun c hc => h.digits c (List.mem_append_right s hc)
  have hquotient : n / 10 ^ t.length = a := by
    rw [h.unique (ha.append hb), Nat.mul_comm, Nat.mul_add_div (Nat.pow_pos (by omega)),
      Nat.div_eq_of_lt hb.lt, Nat.add_zero]
  rw [hquotient]
  exact ha

/-! ## §2. The numbers as they are written. -/

/-- **What is written for a number is read as it.** -/
theorem decimal_ofNat (n : Nat) : Decimal (ofNat n) n := by
  induction n using Nat.strongRecOn with
  | ind n ih =>
      by_cases hsmall : n < 10
      · have hdigit : ofNat n = [n.digitChar] := Nat.toDigits_of_lt_base hsmall
        have hvalue : n.digitChar.toNat - 48 = n := Nat.toNat_digitChar_sub_48_of_lt_ten hsmall
        have h := decimal_singleton (c := n.digitChar) (by simp [hsmall])
        rwa [hvalue, ← hdigit] at h
      · -- the last digit stands behind those of a tenth
        have hmod : n % 10 < 10 := Nat.mod_lt n (by omega)
        have hdigits : ofNat n = ofNat (n / 10) ++ [(n % 10).digitChar] :=
          Nat.toDigits_of_base_le (by omega) (Nat.le_of_not_lt hsmall)
        have hvalue : (n % 10).digitChar.toNat - 48 = n % 10 :=
          Nat.toNat_digitChar_sub_48_of_lt_ten hmod
        have h := (ih (n / 10) (by omega)).append
          (decimal_singleton (c := (n % 10).digitChar) (by simp [hmod]))
        rwa [hvalue, List.length_singleton, Nat.pow_one, Nat.div_add_mod', ← hdigits] at h

theorem signedDecimal_ofInt (i : Int) : SignedDecimal (ofInt i) i := by
  unfold ofInt
  split
  · have h := SignedDecimal.minus (decimal_ofNat i.natAbs)
    rwa [show -(i.natAbs : Int) = i by omega] at h
  · have h := SignedDecimal.plain (decimal_ofNat i.natAbs)
    rwa [show (i.natAbs : Int) = i by omega] at h

/-! ## §3. Digits of a fixed width. -/

/-- The text is the number in that many digits. -/
structure Fixed (width : Nat) (s : Text) (n : Nat) : Prop extends Decimal s n where
  length : s.length = width

theorem decimal_replicate (m : Nat) : Decimal (List.replicate (m + 1) '0') 0 where
  some := by simp
  digits := by
    intro c hc
    rw [List.eq_of_mem_replicate hc]
    rfl
  value := by
    rw [List.reverse_replicate, List.map_replicate]
    exact Nat.ofDigits_replicate_zero

theorem Decimal.padZero (h : Decimal s n) (width : Nat) : Decimal (padZero width s) n := by
  unfold Text.padZero
  cases width - s.length with
  | zero => exact h
  | succ m => simpa using (decimal_replicate m).append h

theorem length_padZero (width : Nat) (s : Text) :
    (padZero width s).length = max width s.length := by
  unfold padZero
  rw [List.length_append, List.length_replicate]
  omega

/-- **A number with zeros before it.** -/
theorem fixed_padZero (width n : Nat) :
    Fixed (max width (ofNat n).length) (padZero width (ofNat n)) n where
  toDecimal := (decimal_ofNat n).padZero width
  length := length_padZero width (ofNat n)

/-- A number that is small enough for the width. -/
theorem fixed_padZero_of_lt (hwidth : 0 < width) (hn : n < 10 ^ width) :
    Fixed width (padZero width (ofNat n)) n := by
  have hlength : (ofNat n).length ≤ width := Nat.toDigits_length 10 n width hwidth hn
  have h := fixed_padZero width n
  rwa [Nat.max_eq_left hlength] at h

/-- The first digits of a number. -/
theorem Fixed.take {more : Nat} (h : Fixed (width + more) s n) (hwidth : 0 < width)
    (hmore : 0 < more) : Fixed width (s.take width) (n / 10 ^ more) := by
  have hlength := h.length
  have hfront : (s.take width).length = width := by
    rw [List.length_take]
    omega
  have hback : (s.drop width).length = more := by
    rw [List.length_drop]
    omega
  have hparts : Decimal (s.take width ++ s.drop width) n := by
    rw [List.take_append_drop]
    exact h.toDecimal
  have hdecimal := hparts.front (List.ne_nil_of_length_pos (by omega))
    (List.ne_nil_of_length_pos (by omega))
  rw [hback] at hdecimal
  exact ⟨hdecimal, hfront⟩

/-- A digit is found again from its value. -/
theorem digitChar_value (hc : c.isDigit = true) : (c.toNat - 48).digitChar = c := by
  have hlt := value_lt_ten hc
  have hvalue := Nat.toNat_digitChar_sub_48_of_lt_ten hlt
  have hdigit : (c.toNat - 48).digitChar.isDigit = true := by simp [hlt]
  have hc' := le_toNat_of_isDigit hc
  have hd' := le_toNat_of_isDigit hdigit
  exact Char.toNat_inj.mp (by omega)

theorem Decimal.rebuild (h : Decimal s n) :
    (s.reverse.map fun c => c.toNat - 48).map Nat.digitChar = s.reverse := by
  rw [List.map_map]
  refine (List.map_congr_left fun c hc => ?_).trans (List.map_id _)
  exact digitChar_value (h.digits c (List.mem_reverse.mp hc))

/-- **There is one way to write a number in a fixed width.** -/
theorem Fixed.unique (hs : Fixed width s n) (ht : Fixed width t n) : s = t := by
  have hlength : (s.reverse.map fun c => c.toNat - 48).length
      = (t.reverse.map fun c => c.toNat - 48).length := by
    simp [hs.length, ht.length]
  have hvalues := Nat.ofDigits_inj_of_len_eq (by omega : 1 < 10) hlength hs.values_lt ht.values_lt
    (hs.value.trans ht.value.symm)
  refine List.reverse_injective ?_
  rw [← hs.rebuild, ← ht.rebuild, hvalues]

end Crosswalk.Text
