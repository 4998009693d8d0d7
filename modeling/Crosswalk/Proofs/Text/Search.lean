/-
  Crosswalk.Proofs.Text.Search
  ──────────────────────────────────────
  **WHERE A SEARCH STOPS.**

  A search through a text that is put together from pieces passes the pieces
  in which nothing begins (`Quiet`) and stops in the first other one:

    • `cutFirst?_append`, `cutFirst?_self_append`: passing and stopping,
    • `exists_quiet_of_infix`, `contains_of_infix`, `cutFirst?_eq_none`: what
      is found and what is not,
    • `cutLast?_append_self`: the last place, at the end of a text.

  Where the pieces meet is told by a character that stands in one of them
  alone (`cut_of_not_mem_left`, `cut_of_not_mem_right`, `first_mark`).
-/
import Mathlib.Data.List.Infix
import Crosswalk.Text.Basic

namespace Crosswalk.Text

variable {P : Text → Prop} {part a b s t x y u v : Text} {c k : Char}

/-! ## §1. Nothing begins in a piece. -/

/-- Nothing with the property begins inside of `a` when `s` follows it. -/
def Quiet (P : Text → Prop) : (a s : Text) → Prop
  | [], _ => True
  | c :: a, s => ¬ P (c :: (a ++ s)) ∧ Quiet P a s

theorem quiet_append : Quiet P (a ++ b) s ↔ Quiet P a (b ++ s) ∧ Quiet P b s := by
  induction a with
  | nil => simp [Quiet]
  | cons c a ih =>
      show ¬ P (c :: (a ++ b ++ s)) ∧ Quiet P (a ++ b) s ↔ _
      rw [ih, List.append_assoc, ← and_assoc]
      rfl

/-- What begins with a character that a piece does not hold does not begin in it. -/
theorem quiet_of_head (hP : ∀ s, P s → ∃ s', s = c :: s') (hc : c ∉ a) : Quiet P a s := by
  induction a with
  | nil => trivial
  | cons d a ih =>
      obtain ⟨hd, ha⟩ := List.ne_and_not_mem_of_not_mem_cons hc
      refine ⟨fun h => ?_, ih ha⟩
      obtain ⟨s', hs'⟩ := hP _ h
      exact hd (List.cons.inj hs').1.symm

/-- What holds a character does not begin where that character does not follow. -/
theorem quiet_of_not_mem (hk : k ∈ part) (ha : k ∉ a) (hs : k ∉ s) : Quiet (part <+: ·) a s := by
  induction a with
  | nil => trivial
  | cons d a ih =>
      refine ⟨fun h => ?_, ih fun hm => ha (List.mem_cons_of_mem d hm)⟩
      have hmem : k ∈ (d :: a) ++ s := h.subset hk
      rcases List.mem_append.mp hmem with hmem | hmem
      · exact ha hmem
      · exact hs hmem

/-- Somewhere in a piece something begins, or nothing does. -/
theorem quiet_or_exists (P : Text → Prop) : ∀ (a s : Text),
    Quiet P a s ∨ ∃ x y, a = x ++ y ∧ y ≠ [] ∧ Quiet P x (y ++ s) ∧ P (y ++ s)
  | [], s => .inl trivial
  | c :: a, s => by
      by_cases h : P (c :: (a ++ s))
      · exact .inr ⟨[], c :: a, rfl, by simp, trivial, h⟩
      · rcases quiet_or_exists P a s with ha | ⟨x, y, rfl, hy, hx, hP⟩
        · exact .inl ⟨h, ha⟩
        · refine .inr ⟨c :: x, y, rfl, hy, ⟨?_, hx⟩, hP⟩
          rw [← List.append_assoc]
          exact h

/-! ## §2. The first place. -/

theorem after?_append (part s : Text) : after? part (part ++ s) = some s := by
  unfold after?
  rw [List.isPrefixOf?_eq_some_iff_append_eq]

theorem after?_eq_none (h : ¬ part <+: s) : after? part s = none := by
  cases hs : after? part s with
  | none => rfl
  | some rest => exact absurd ⟨rest, List.isPrefixOf?_eq_some_iff_append_eq.mp hs⟩ h

/-- A search passes a piece in which nothing begins. -/
theorem cutFirst?_append (h : Quiet (part <+: ·) a s) :
    cutFirst? part (a ++ s) = (cutFirst? part s).map (fun p => (a ++ p.1, p.2)) := by
  induction a with
  | nil => cases hs : cutFirst? part s <;> simp [hs]
  | cons c a ih =>
      rw [List.cons_append, cutFirst?, after?_eq_none h.1]
      simp only
      rw [ih h.2, Option.map_map]
      rfl

/-- A search stops at the text it is for. -/
theorem cutFirst?_self_append (part s : Text) : cutFirst? part (part ++ s) = some ([], s) := by
  have h := after?_append part s
  cases hs : part ++ s with
  | nil =>
      rw [hs] at h
      rw [cutFirst?, h]
      rfl
  | cons c cs =>
      rw [hs] at h
      rw [cutFirst?, h]

theorem cutFirst?_of_quiet (h : Quiet (part <+: ·) a (part ++ s)) :
    cutFirst? part (a ++ (part ++ s)) = some (a, s) := by
  rw [cutFirst?_append h, cutFirst?_self_append]
  simp

/-- What stands in a text has a first place there. -/
theorem exists_quiet_of_infix (h : part <:+: s) :
    ∃ x y, s = x ++ (part ++ y) ∧ Quiet (part <+: ·) x (part ++ y) := by
  obtain ⟨p, q, hpq⟩ := h
  -- the given place is the first one, or there is one before it
  rcases quiet_or_exists (part <+: ·) p (part ++ q) with hq | ⟨x, y, rfl, -, hx, hy⟩
  · exact ⟨p, q, by rw [← hpq, List.append_assoc], hq⟩
  · obtain ⟨r, hr⟩ := hy
    refine ⟨x, r, ?_, ?_⟩
    · rw [← hpq, hr]
      simp
    · rw [hr]
      exact hx

/-- What stands in a text is found there. -/
theorem contains_of_infix (h : part <:+: s) : contains part s = true := by
  obtain ⟨x, y, rfl, hquiet⟩ := exists_quiet_of_infix h
  unfold contains
  rw [cutFirst?_of_quiet hquiet]
  rfl

theorem cutFirst?_eq_none (h : ¬ part <:+: s) : cutFirst? part s = none := by
  induction s with
  | nil =>
      rw [cutFirst?, after?_eq_none fun hp => h hp.isInfix]
      rfl
  | cons c s ih =>
      rw [cutFirst?, after?_eq_none fun hp => h hp.isInfix]
      simp only
      rw [ih fun hi => h (hi.trans (List.suffix_cons c s).isInfix)]
      rfl

/-! ## §3. The last place. -/

theorem cutLast?_append_self (a part : Text) : cutLast? part (a ++ part) = some (a, []) := by
  unfold cutLast?
  rw [List.reverse_append, cutFirst?_self_append]
  simp

theorem cutLast?_eq_none (h : ¬ part <:+: s) : cutLast? part s = none := by
  unfold cutLast?
  rw [cutFirst?_eq_none fun hr => h (List.reverse_infix.mp hr)]
  rfl

/-- A piece in which nothing begins does not hold what is searched. -/
theorem not_infix_of_quiet (h : Quiet (part <+: ·) a s) (hne : part ≠ []) : ¬ part <:+: a := by
  intro hi
  obtain ⟨x, y, rfl, -⟩ := exists_quiet_of_infix hi
  have hy := (quiet_append.mp h).2
  cases part with
  | nil => exact hne rfl
  | cons c part => exact hy.1 ⟨y ++ s, by simp⟩

/-! ## §4. Where pieces meet. -/

/-- All characters of a text differ from one that is not in it. -/
theorem forall_bne_of_not_mem (h : c ∉ a) : ∀ d ∈ a, (d != c) = true := by
  intro d hd
  rw [bne_iff_ne]
  rintro rfl
  exact h hd

/-- A cut at a character lies in one of two pieces. -/
theorem cut_append (h : a ++ b = x ++ c :: y) :
    (∃ y', y = y' ++ b ∧ a = x ++ c :: y') ∨ ∃ x', x = a ++ x' ∧ b = x' ++ c :: y := by
  rcases List.append_eq_append_iff.mp h with ⟨x', hx, hb⟩ | ⟨a', ha, hy⟩
  · exact .inr ⟨x', hx, hb⟩
  · cases a' with
    | nil => exact .inr ⟨[], by simp [ha], hy.symm⟩
    | cons d a' =>
        obtain ⟨hd, hy'⟩ := List.cons.inj hy
        exact .inl ⟨a', hy', by rw [ha, hd]⟩

/-- A cut at a character lies behind a piece that does not hold it. -/
theorem cut_of_not_mem_left (hc : c ∉ a) (h : a ++ b = x ++ c :: y) :
    ∃ x', x = a ++ x' ∧ b = x' ++ c :: y := by
  rcases cut_append h with ⟨y', -, ha⟩ | hcut
  · refine absurd ?_ hc
    rw [ha]
    simp
  · exact hcut

/-- A cut at a character lies before a piece that does not hold it. -/
theorem cut_of_not_mem_right (hc : c ∉ b) (h : a ++ b = x ++ c :: y) :
    ∃ y', y = y' ++ b ∧ a = x ++ c :: y' := by
  rcases cut_append h with hcut | ⟨x', -, hb⟩
  · exact hcut
  · refine absurd ?_ hc
    rw [hb]
    simp

/-- The first of a character is at one place. -/
theorem first_mark (ha : k ∉ a) (hu : k ∉ u) (h : a ++ k :: b = u ++ k :: v) : a = u ∧ b = v := by
  obtain ⟨x', hx, hb⟩ := cut_of_not_mem_left ha h
  cases x' with
  | nil =>
      rw [List.append_nil] at hx
      exact ⟨hx.symm, (List.cons.inj hb).2⟩
  | cons d x' =>
      refine absurd ?_ hu
      rw [hx, ← (List.cons.inj hb).1]
      simp

theorem first_mark_of_prefix (ha : k ∉ a) (hu : k ∉ u) (h : u ++ k :: v <+: a ++ k :: b) :
    u = a ∧ v <+: b := by
  obtain ⟨r, hr⟩ := h
  rw [List.append_assoc, List.cons_append] at hr
  obtain ⟨heq, hv⟩ := first_mark hu ha hr
  exact ⟨heq, r, hv⟩

/-- A search passes a piece without a character that stands in what is searched, when a character
follows that does not stand there so early. -/
theorem quiet_of_stop (hk : k ∉ a) (hcu : c ∉ u) (hck : c ≠ k) :
    Quiet (u ++ k :: v <+: ·) a (c :: s) := by
  induction a with
  | nil => trivial
  | cons d a ih =>
      refine ⟨fun h => ?_, ih fun hm => hk (List.mem_cons_of_mem d hm)⟩
      obtain ⟨r, hr⟩ := h
      have hr' : (d :: a) ++ c :: s = u ++ k :: (v ++ r) := by
        rw [← List.cons_append, List.append_assoc, List.cons_append] at hr
        exact hr.symm
      obtain ⟨x', hx, hb⟩ := cut_of_not_mem_left hk hr'
      cases x' with
      | nil => exact hck (List.cons.inj hb).1
      | cons e x' =>
          refine hcu ?_
          rw [hx, (List.cons.inj hb).1]
          simp

end Crosswalk.Text
