/-
  Crosswalk.Proofs.Json.Members
  ──────────────────────────────────────
  **THE MEMBERS OF AN OBJECT.**

  An object keeps its members in ascending order of their keys (`Sorted`),
  each key once, whatever order they come in.

    • `member?_insert`: what is found after a member was put in,
    • `sorted_insert`, `insert_last`: the order,
    • `insert_insert`, `insert_comm`, `insert_of_member?`: two members, and a
      member that is there,
    • `textMembers`: the object of a list of keys and texts.
-/
import Mathlib.Data.Char
import Mathlib.Data.List.Induction
import Mathlib.Data.List.Lex
import Crosswalk.Json.Basic

namespace Crosswalk.Json

/-! ## §1. Putting a member in. -/

/-- The keys are in ascending order, each once. -/
def Sorted (members : List (Text × Json)) : Prop :=
  members.Pairwise (fun m n => m.1 < n.1)

section

variable (key : Text) (value : Json)

/-- **What is found after a member was put in.** -/
theorem member?_insert (k : Text) : ∀ (members : List (Text × Json)),
    member? k (insert key value members) = if k = key then some value else member? k members := by
  intro members
  induction members with
  | nil =>
      by_cases hk : key = k
      · simp [insert, member?, hk]
      · simp [insert, member?, hk, Ne.symm hk]
  | cons m members ih =>
      obtain ⟨other, v⟩ := m
      rw [insert]
      by_cases hsame : key = other
      · rw [if_pos hsame]
        by_cases hk : key = k
        · simp [member?, hk]
        · have hother : ¬ other = k := hsame ▸ hk
          simp [member?, hk, hother, Ne.symm hk]
      · rw [if_neg hsame]
        by_cases hless : key < other
        · rw [if_pos hless]
          by_cases hk : key = k
          · simp [member?, hk]
          · simp [member?, hk, Ne.symm hk]
        · -- the member at the front stays, and it has another key
          rw [if_neg hless]
          by_cases hfront : other = k
          · have hk : ¬ k = key := fun h => hsame (h.symm.trans hfront.symm)
            simp [member?, hfront, hk]
          · have hskip : ∀ l, member? k ((other, v) :: l) = member? k l := by
              intro l
              simp [member?, hfront]
            rw [hskip, hskip, ih]

theorem mem_insert {m : Text × Json} : ∀ {members : List (Text × Json)},
    m ∈ insert key value members → m = (key, value) ∨ m ∈ members := by
  intro members
  induction members with
  | nil => intro hm; exact .inl (List.mem_singleton.mp hm)
  | cons n members ih =>
      obtain ⟨other, v⟩ := n
      intro hm
      rw [insert] at hm
      split at hm
      · exact (List.mem_cons.mp hm).imp id (List.mem_cons_of_mem _)
      · split at hm
        · exact List.mem_cons.mp hm
        · rcases List.mem_cons.mp hm with rfl | hm
          · exact .inr List.mem_cons_self
          · exact (ih hm).imp id (List.mem_cons_of_mem _)

/-- **The order is kept.** -/
theorem sorted_insert : ∀ {members : List (Text × Json)}, Sorted members →
    Sorted (insert key value members) := by
  intro members
  induction members with
  | nil => intro _; exact List.pairwise_singleton _ _
  | cons m members ih =>
      obtain ⟨other, v⟩ := m
      intro h
      obtain ⟨hfront, hrest⟩ := List.pairwise_cons.mp h
      rw [insert]
      split
      next hsame =>
        subst hsame
        exact List.pairwise_cons.mpr ⟨hfront, hrest⟩
      next hsame =>
        split
        next hless =>
          refine List.pairwise_cons.mpr ⟨fun n hn => ?_, h⟩
          rcases List.mem_cons.mp hn with rfl | hn
          · exact hless
          · exact lt_trans hless (hfront n hn)
        next hless =>
          refine List.pairwise_cons.mpr ⟨fun n hn => ?_, ih hrest⟩
          rcases mem_insert key value hn with rfl | hn
          · exact (lt_trichotomy other key).resolve_right
              (fun hor => hor.elim (fun heq => hsame heq.symm) hless)
          · exact hfront n hn

/-- A key behind all others comes at the end. -/
theorem insert_last : ∀ {members : List (Text × Json)}, (∀ m ∈ members, m.1 < key) →
    insert key value members = members ++ [(key, value)] := by
  intro members
  induction members with
  | nil => intro _; rfl
  | cons m members ih =>
      obtain ⟨other, v⟩ := m
      intro h
      have hless : other < key := h _ List.mem_cons_self
      rw [insert, if_neg (ne_of_gt hless), if_neg (lt_asymm hless),
        ih (fun n hn => h n (List.mem_cons_of_mem _ hn))]
      rfl

end

/-! ## §2. Putting members in one after the other. -/

section

variable {key k l : Text} {value u v w : Json} {members : List (Text × Json)}

theorem insert_cons_self : insert key value ((key, v) :: members) = (key, value) :: members :=
  if_pos rfl

theorem insert_cons_of_lt (h : key < k) :
    insert key value ((k, v) :: members) = (key, value) :: (k, v) :: members := by
  rw [insert, if_neg (ne_of_lt h), if_pos h]

theorem insert_cons_of_gt (h : k < key) :
    insert key value ((k, v) :: members) = (k, v) :: insert key value members := by
  rw [insert, if_neg (ne_of_gt h), if_neg (lt_asymm h)]

/-- Of two members with one key the later one stays. -/
theorem insert_insert (members : List (Text × Json)) :
    insert key v (insert key w members) = insert key v members := by
  induction members with
  | nil => exact insert_cons_self
  | cons m members ih =>
      obtain ⟨other, u⟩ := m
      rcases lt_trichotomy key other with hless | rfl | hgreater
      · rw [insert_cons_of_lt hless, insert_cons_of_lt hless, insert_cons_self]
      · rw [insert_cons_self, insert_cons_self, insert_cons_self]
      · rw [insert_cons_of_gt hgreater, insert_cons_of_gt hgreater, insert_cons_of_gt hgreater, ih]

theorem insert_comm_of_lt (h : k < l) (members : List (Text × Json)) :
    insert k v (insert l w members) = insert l w (insert k v members) := by
  induction members with
  | nil =>
      have hfront : insert k v [(l, w)] = [(k, v), (l, w)] := insert_cons_of_lt h
      have hback : insert l w [(k, v)] = [(k, v), (l, w)] := insert_cons_of_gt h
      exact hfront.trans hback.symm
  | cons m members ih =>
      obtain ⟨other, u⟩ := m
      rcases lt_trichotomy l other with hl | rfl | hl
      · have hk : k < other := lt_trans h hl
        rw [insert_cons_of_lt hl, insert_cons_of_lt h, insert_cons_of_lt hk, insert_cons_of_gt h,
          insert_cons_of_lt hl]
      · rw [insert_cons_self, insert_cons_of_lt h, insert_cons_of_lt h, insert_cons_of_gt h,
          insert_cons_self]
      · -- the larger key goes on behind the first member, and the smaller one may stop there
        rw [insert_cons_of_gt hl]
        rcases lt_trichotomy k other with hk | rfl | hk
        · rw [insert_cons_of_lt hk, insert_cons_of_lt hk, insert_cons_of_gt h, insert_cons_of_gt hl]
        · rw [insert_cons_self, insert_cons_self, insert_cons_of_gt h]
        · rw [insert_cons_of_gt hk, insert_cons_of_gt hk, insert_cons_of_gt hl, ih]

/-- **Members with different keys can be put in in any order.** -/
theorem insert_comm (h : k ≠ l) (members : List (Text × Json)) :
    insert k v (insert l w members) = insert l w (insert k v members) := by
  rcases lt_or_gt_of_ne h with hless | hgreater
  · exact insert_comm_of_lt hless members
  · exact (insert_comm_of_lt hgreater members).symm

theorem mem_of_member? (h : member? key members = some v) : (key, v) ∈ members := by
  obtain ⟨⟨k, u⟩, hfind, rfl⟩ := Option.map_eq_some_iff.mp h
  have hkey : k = key := by simpa using List.find?_some hfind
  rw [← hkey]
  exact List.mem_of_find?_eq_some hfind

/-- Putting in a member that is there changes nothing. -/
theorem insert_of_member? (hsorted : Sorted members) (h : member? key members = some v) :
    insert key v members = members := by
  induction members with
  | nil => exact absurd h nofun
  | cons m members ih =>
      obtain ⟨other, u⟩ := m
      obtain ⟨hfront, hrest⟩ := List.pairwise_cons.mp hsorted
      by_cases hsame : other = key
      · subst hsame
        have hu : u = v := by simpa [member?] using h
        rw [hu]
        exact insert_cons_self
      · have hlater : member? key members = some v := by simpa [member?, hsame] using h
        rw [insert_cons_of_gt (hfront _ (mem_of_member? hlater)), ih hrest hlater]

end

/-! ## §3. Objects of texts. -/

/-- The members of the object with these keys and texts; of a key that comes twice the last text
counts. -/
def textMembers (fields : List (Text × Text)) : List (Text × Json) :=
  fields.foldl (fun members f => insert f.1 (.string f.2) members) []

theorem textMembers_concat (fields : List (Text × Text)) (f : Text × Text) :
    textMembers (fields ++ [f]) = insert f.1 (.string f.2) (textMembers fields) := by
  unfold textMembers
  rw [List.foldl_append]
  rfl

theorem sorted_textMembers (fields : List (Text × Text)) : Sorted (textMembers fields) := by
  induction fields using List.reverseRecOn with
  | nil => exact List.Pairwise.nil
  | append_singleton fields f ih =>
      rw [textMembers_concat]
      exact sorted_insert _ _ ih

theorem mem_textMembers {m : Text × Json} (fields : List (Text × Text))
    (hm : m ∈ textMembers fields) : ∃ f ∈ fields, m = (f.1, .string f.2) := by
  induction fields using List.reverseRecOn with
  | nil => exact absurd hm List.not_mem_nil
  | append_singleton fields f ih =>
      rw [textMembers_concat] at hm
      rcases mem_insert _ _ hm with rfl | hm
      · exact ⟨f, List.mem_append_right _ (List.mem_singleton_self f), rfl⟩
      · obtain ⟨g, hg, rfl⟩ := ih hm
        exact ⟨g, List.mem_append_left _ hg, rfl⟩

/-- With different keys every text is found under its key. -/
theorem member?_textMembers {fields : List (Text × Text)} (hd : (fields.map Prod.fst).Nodup)
    {f : Text × Text} (hf : f ∈ fields) : member? f.1 (textMembers fields) = some (.string f.2) := by
  induction fields using List.reverseRecOn with
  | nil => exact absurd hf List.not_mem_nil
  | append_singleton fields g ih =>
      rw [List.map_append, List.nodup_append] at hd
      obtain ⟨hfields, -, hnew⟩ := hd
      rw [textMembers_concat, member?_insert]
      rcases List.mem_append.mp hf with hf | hf
      · have hne : f.1 ≠ g.1 :=
          hnew f.1 (List.mem_map_of_mem hf) g.1 (List.mem_singleton_self g.1)
        rw [if_neg hne]
        exact ih hfields hf
      · rw [List.mem_singleton.mp hf, if_pos rfl]

end Crosswalk.Json
