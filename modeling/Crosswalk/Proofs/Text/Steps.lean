/-
  Crosswalk.Proofs.Text.Steps
  ──────────────────────────────────────
  **THE PIECES OF A PATH, AND BLANK TEXT.**

    • `trim_eq_self`, `not_isBlank_of_getLast?_trim`, `trim_trim`: what `trim` leaves and what it
      takes,
    • `mem_intercalate`, `steps_intercalate`: pieces without separators and white space are found
      again in the path that they make, and so are trimmed ones (`steps_intercalate_trimmed`),
    • `steps_append`: the pieces of two paths with a separator between them,
    • `collapse_of_blank`: nothing is left of blank text.
-/
import Crosswalk.Text.Basic

namespace Crosswalk.Text

/-! ## §1. Paths. -/

/-- A text without white space has none around it. -/
theorem trim_eq_self {s : Text} (h : ∀ c ∈ s, isBlank c = false) : trim s = s := by
  have hkeep : ∀ t : Text, (∀ c ∈ t, isBlank c = false) → t.dropWhile isBlank = t := by
    intro t ht
    cases t with
    | nil => rfl
    | cons c t => rw [List.dropWhile_cons_of_neg (by simp [ht c List.mem_cons_self])]
  unfold trim trimEnd trimStart
  rw [hkeep s h, hkeep s.reverse fun c hc => h c (List.mem_reverse.mp hc), List.reverse_reverse]

/-- A trimmed text does not end in white space. -/
theorem not_isBlank_of_getLast?_trim {s : Text} {c : Char} (h : (trim s).getLast? = some c) :
    isBlank c = false := by
  unfold trim trimEnd at h
  rw [List.getLast?_reverse] at h
  have hnot := List.head?_dropWhile_not isBlank (trimStart s).reverse
  rw [h] at hnot
  simpa using hnot

/-- **A trimmed text is trimmed no further.** -/
theorem trim_trim (s : Text) : trim (trim s) = trim s := by
  -- what is left begins where the text without its leading white space begins
  have hstart : trimStart (trim s) = trim s := by
    cases htrim : trim s with
    | nil => rfl
    | cons c t =>
        have hfront : trim s <+: trimStart s := by
          unfold trim trimEnd
          rw [← List.reverse_suffix, List.reverse_reverse]
          exact List.dropWhile_suffix isBlank
        obtain ⟨rest, hrest⟩ := hfront
        have hhead : (s.dropWhile isBlank).head? = some c := by
          rw [show s.dropWhile isBlank = trim s ++ rest from hrest.symm, htrim]
          rfl
        have hnot := List.head?_dropWhile_not isBlank s
        rw [hhead] at hnot
        exact List.dropWhile_cons_of_neg (by simpa using hnot)
  have hend : trimEnd (trim s) = trim s := by
    unfold trimEnd
    rw [List.reverse_eq_iff]
    cases hlast : (trim s).reverse with
    | nil => rfl
    | cons c t =>
        have hc : isBlank c = false := by
          apply not_isBlank_of_getLast?_trim (s := s)
          rw [List.getLast?_eq_head?_reverse, hlast]
          rfl
        exact List.dropWhile_cons_of_neg (by simp [hc])
  calc trim (trim s) = trimEnd (trimStart (trim s)) := rfl
    _ = trim s := by rw [hstart, hend]

/-- What stands in a path stands in one of its pieces or is a separator. -/
theorem mem_intercalate {sep c : Char} : ∀ {names : List Text}, c ∈ [sep].intercalate names →
    c = sep ∨ ∃ n ∈ names, c ∈ n := by
  intro names
  induction names with
  | nil => intro h; exact absurd h List.not_mem_nil
  | cons n names ih =>
      intro h
      cases names with
      | nil =>
          rw [List.intercalate_singleton] at h
          exact .inr ⟨n, List.mem_cons_self, h⟩
      | cons m names =>
          rw [List.intercalate_cons_cons] at h
          rcases List.mem_append.mp h with h | h
          · rcases List.mem_append.mp h with h | h
            · exact .inr ⟨n, List.mem_cons_self, h⟩
            · exact .inl (List.mem_singleton.mp h)
          · exact (ih h).imp id fun ⟨x, hx, hc⟩ => ⟨x, List.mem_cons_of_mem n hx, hc⟩

/-- Pieces with separators between them: the first one, and the others with a separator before
each. -/
theorem intercalate_cons (sep : Char) : ∀ (first : Text) (rest : List Text),
    [sep].intercalate (first :: rest) = first ++ rest.flatMap (sep :: ·) := by
  intro first rest
  induction rest generalizing first with
  | nil => simp
  | cons next rest ih =>
      rw [List.intercalate_cons_cons, ih, List.flatMap_cons, List.append_assoc]
      simp

/-- What stands in one of the pieces of a text stands in it. -/
theorem mem_of_mem_splitOn {sep c : Char} {s piece : Text} (hpiece : piece ∈ s.splitOn sep)
    (hc : c ∈ piece) : c ∈ s := by
  have hjoined : [sep].intercalate (s.splitOn sep) = s := List.intercalate_splitOn sep
  rw [← hjoined]
  cases hsplit : s.splitOn sep with
  | nil => exact absurd hsplit (List.splitOn_ne_nil sep s)
  | cons first rest =>
      rw [hsplit] at hpiece
      rw [intercalate_cons]
      rcases List.mem_cons.mp hpiece with rfl | hrest
      · exact List.mem_append_left _ hc
      · exact List.mem_append_right _
          (List.mem_flatMap.mpr ⟨piece, hrest, List.mem_cons_of_mem sep hc⟩)

/-- A change of characters changes the separators and the pieces. -/
theorem map_intercalate (f : Char → Char) (sep : Char) : ∀ names : List Text,
    ([sep].intercalate names).map f = [f sep].intercalate (names.map (List.map f)) := by
  intro names
  induction names with
  | nil => rfl
  | cons n names ih =>
      cases names with
      | nil => simp
      | cons m names =>
          rw [List.intercalate_cons_cons, List.map_append, List.map_append, ih]
          simp [List.intercalate_cons_cons]

/-- **Trimmed pieces that make a path are found in it.** -/
theorem steps_intercalate_trimmed {sep : Char} {names : List Text} (hsep : ∀ n ∈ names, sep ∉ n)
    (htrim : ∀ n ∈ names, trim n = n) (hne : ∀ n ∈ names, n ≠ []) :
    steps sep ([sep].intercalate names) = names := by
  by_cases hnames : names = []
  · subst hnames
    rfl
  · unfold steps
    rw [List.splitOn_intercalate sep hsep hnames, List.map_congr_left htrim, List.map_id']
    apply List.filter_eq_self.mpr
    intro n hn
    simpa using hne n hn

/-- **The pieces that make a path are found in it.** -/
theorem steps_intercalate {sep : Char} {names : List Text} (hsep : ∀ n ∈ names, sep ∉ n)
    (hblank : ∀ n ∈ names, ∀ c ∈ n, isBlank c = false) (hne : ∀ n ∈ names, n ≠ []) :
    steps sep ([sep].intercalate names) = names :=
  steps_intercalate_trimmed hsep (fun n hn => trim_eq_self (hblank n hn)) hne

/-- **The pieces of two paths** with a separator between them. -/
theorem steps_append (sep : Char) (p q : Text) :
    steps sep (p ++ sep :: q) = steps sep p ++ steps sep q := by
  unfold steps
  rw [List.splitOn_append_cons_self, List.map_append, List.filter_append]

/-! ## §2. Blank text. -/

theorem words_of_blank {s : Text} (h : blank s = true) : words s = [] := by
  have hpieces : ∀ s : Text, (∀ c ∈ s, isBlank c = true) → ∀ w ∈ s.splitOnP isBlank, w = [] := by
    intro s
    induction s with
    | nil => intro _ w hw; exact List.mem_singleton.mp hw
    | cons c s ih =>
        intro hs w hw
        rw [List.splitOnP_cons_eq_if_modifyHead, if_pos (hs c List.mem_cons_self)] at hw
        rcases List.mem_cons.mp hw with rfl | hw
        · rfl
        · exact ih (fun d hd => hs d (List.mem_cons_of_mem c hd)) w hw
  unfold words
  rw [List.filter_eq_nil_iff]
  intro w hw
  rw [hpieces s (List.all_eq_true.mp h) w hw]
  decide

/-- **Nothing is left of blank text.** -/
theorem collapse_of_blank {s : Text} (h : blank s = true) : collapse s = [] := by
  unfold collapse
  rw [words_of_blank h]
  rfl

end Crosswalk.Text
