/-
  Crosswalk.Proofs.Text.Order
  ──────────────────────────────────────
  **TEXTS IN ORDER.**

  Of two texts the one with the smaller character comes first where they
  differ for the first time, which is the order of their bytes in UTF-8.  For
  texts that are put together from parts of the same lengths the first parts
  decide before the others, as the higher places of a number do before the
  lower ones:

    • `compare_append`: part by part,
    • `compare_mul_add`: the places of a number,
    • `Decimal.compare_eq`, `Fixed.compare_append`: digits are ordered as
      their numbers, and before other texts they decide.
-/
import Crosswalk.Proofs.Text.Numeral

namespace Crosswalk.Text

variable {a b s t : Text} {c d : Char} {m n width : Nat}

/-! ## §1. Part by part. -/

/-- **The first parts decide before the others**, when they have the same length. -/
theorem compare_append : ∀ {a b : Text}, a.length = b.length → ∀ s t : Text,
    compare (a ++ s) (b ++ t) = (compare a b).then (compare s t) := by
  intro a
  induction a with
  | nil =>
      intro b hlength s t
      obtain rfl : b = [] := List.eq_nil_of_length_eq_zero hlength.symm
      rfl
  | cons c a ih =>
      intro b hlength s t
      cases b with
      | nil => cases hlength
      | cons d b =>
          have htail : a.length = b.length := by simpa using hlength
          rw [List.cons_append, List.cons_append, List.compare_cons_cons, ih htail,
            List.compare_cons_cons, Ordering.then_assoc]

/-- The same character before two texts does not count. -/
theorem compare_cons_self (c : Char) (s t : Text) : compare (c :: s) (c :: t) = compare s t := by
  have hsign : compare c c = .eq := Std.ReflCmp.compare_self
  rw [List.compare_cons_cons, hsign]
  rfl

/-! ## §2. Numbers. -/

/-- **A higher place decides before the lower ones**, which are too small to reach it. -/
theorem compare_mul_add {base x x' y y' : Int} (hy : 0 ≤ y ∧ y < base) (hy' : 0 ≤ y' ∧ y' < base) :
    compare (x * base + y) (x' * base + y') = (compare x x').then (compare y y') := by
  have hbase : 0 ≤ base := by omega
  rcases Int.lt_trichotomy x x' with hlt | rfl | hgt
  · have hstep := Int.mul_le_mul_of_nonneg_right (show x + 1 ≤ x' by omega) hbase
    rw [Int.add_mul] at hstep
    rw [Int.compare_eq_lt.mpr hlt, Int.compare_eq_lt.mpr (by omega)]
    rfl
  · rw [Int.compare_eq_eq.mpr rfl, Int.compare_eq_ite_lt, Int.compare_eq_ite_lt]
    simp
  · have hstep := Int.mul_le_mul_of_nonneg_right (show x' + 1 ≤ x by omega) hbase
    rw [Int.add_mul] at hstep
    rw [Int.compare_eq_gt.mpr hgt, Int.compare_eq_gt.mpr (by omega)]
    rfl

theorem compare_natCast (m n : Nat) : compare (m : Int) (n : Int) = compare m n := by
  rw [Int.compare_eq_ite_lt, Nat.compare_eq_ite_lt]
  simp

theorem compare_mul_add_nat {base x x' y y' : Nat} (hy : y < base) (hy' : y' < base) :
    compare (x * base + y) (x' * base + y') = (compare x x').then (compare y y') := by
  have hplaces : compare ((x : Int) * base + y) ((x' : Int) * base + y')
      = (compare (x : Int) x').then (compare (y : Int) y') :=
    compare_mul_add (by omega) (by omega)
  rw [← compare_natCast, ← compare_natCast x, ← compare_natCast y, ← hplaces]
  push_cast
  rfl

/-- Of two digits the one with the smaller value comes first. -/
theorem compare_digit (hc : c.isDigit = true) (hd : d.isDigit = true) :
    compare c d = compare (c.toNat - 48) (d.toNat - 48) := by
  have hc' := le_toNat_of_isDigit hc
  have hd' := le_toNat_of_isDigit hd
  have hlt : c < d ↔ c.toNat - 48 < d.toNat - 48 := by
    show c.toNat < d.toNat ↔ _
    omega
  have heq : c = d ↔ c.toNat - 48 = d.toNat - 48 := by
    rw [← Char.toNat_inj]
    omega
  show compareOfLessAndEq c d = compareOfLessAndEq _ _
  simp only [compareOfLessAndEq, hlt, heq]

/-- **Digits are ordered as the numbers that they stand for**, when they are as many. -/
theorem Decimal.compare_eq : ∀ {s t : Text} {m n : Nat}, Decimal s m → Decimal t n →
    s.length = t.length → compare s t = compare m n := by
  intro s
  induction s with
  | nil => intro t m n hs _ _; exact absurd rfl hs.some
  | cons c s ih =>
      intro t m n hs ht hlength
      cases t with
      | nil => cases hlength
      | cons d t =>
          have htail : s.length = t.length := by simpa using hlength
          have hc := hs.digits c List.mem_cons_self
          have hd := ht.digits d List.mem_cons_self
          by_cases hnil : s = []
          · subst hnil
            obtain rfl : t = [] := List.eq_nil_of_length_eq_zero htail.symm
            rw [hs.unique (decimal_singleton hc), ht.unique (decimal_singleton hd),
              List.compare_cons_cons, compare_digit hc hd]
            exact Ordering.then_eq
          · have hnil' : t ≠ [] := by
              rintro rfl
              exact hnil (List.eq_nil_of_length_eq_zero htail)
            -- the first digit is the highest place of the number
            obtain ⟨k, hk⟩ := exists_decimal hnil fun e he => hs.digits e (List.mem_cons_of_mem c he)
            obtain ⟨l, hl⟩ := exists_decimal hnil' fun e he => ht.digits e (List.mem_cons_of_mem d he)
            have hkl := hk.lt
            have hlk := hl.lt
            have hm := hs.unique ((decimal_singleton hc).append hk)
            have hn := ht.unique ((decimal_singleton hd).append hl)
            rw [← htail] at hlk hn
            rw [List.compare_cons_cons, ih hk hl htail, compare_digit hc hd, hm, hn,
              compare_mul_add_nat hkl hlk]

/-- **Digits before other texts** decide before them. -/
theorem Fixed.compare_append (ha : Fixed width a m) (hb : Fixed width b n) (s t : Text) :
    compare (a ++ s) (b ++ t) = (compare m n).then (compare s t) := by
  have hlength : a.length = b.length := ha.length.trans hb.length.symm
  rw [Text.compare_append hlength, ha.toDecimal.compare_eq hb.toDecimal hlength]

end Crosswalk.Text
