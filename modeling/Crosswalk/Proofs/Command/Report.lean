/-
  Crosswalk.Proofs.Command.Report
  ──────────────────────────────────────
  **REPORTS OF BATCHES.**

  A report accounts for every file once, as one of those that are counted as
  translated or in a line of its own.  It is the same for all orders in which
  the jobs may end.

    • `batchReport_accounts`: every file is accounted for,
    • `batchReport_perm`: the order of the jobs does not show.
-/
import Mathlib.Data.List.Nodup
import Mathlib.Order.Basic
import Crosswalk.Command.Batch

namespace Crosswalk.Command

variable {done done' : List Done} {files : List Text} {route : Text}

/-! ## §1. Every file once. -/

/-- The report says of every file, once, that it was translated or why it was not. -/
structure Accounts (done : List Done) (route report : Text) (translated : List Text)
    (failed : List (Text × Text)) : Prop where
  once : (translated ++ failed.map Prod.fst).Perm (done.map Done.input)
  good : ∀ file ∈ translated, ∃ output, Done.mk file (.ok output) ∈ done
  bad : ∀ failure ∈ failed, ∃ t, Done.mk failure.1 (.error t) ∈ done ∧ failure.2 = t.inline
  wording : report = (failed.map failureLine).flatten ++ ("translated ".toList
    ++ Text.ofNat translated.length ++ " of ".toList ++ Text.ofNat done.length
    ++ " files for route ".toList ++ route ++ ['\n'])

/-- The files that were translated. -/
def translatedFiles (done : List Done) : List Text :=
  (done.filter (·.failure?.isNone)).map Done.input

theorem failures_perm_filterMap (done : List Done) :
    (failures done).Perm (done.filterMap Done.failure?) :=
  List.mergeSort_perm _ _

/-- A failure is that of the file of its job. -/
theorem failure?_eq_some {x : Done} {f : Text × Text} :
    x.failure? = some f ↔ f.1 = x.input ∧ ∃ t, x.result = .error t ∧ f.2 = t.inline := by
  unfold Done.failure?
  cases hresult : x.result with
  | ok output => simp
  | error t =>
      simp only [Option.some.injEq, Except.error.injEq, exists_eq_left']
      constructor
      · rintro rfl
        exact ⟨rfl, rfl⟩
      · intro ⟨hinput, htrouble⟩
        rw [← hinput, ← htrouble]

/-- Every job failed, or its file was translated. -/
theorem perm_inputs (done : List Done) :
    (translatedFiles done ++ (failures done).map Prod.fst).Perm (done.map Done.input) := by
  have hfailed : ((failures done).map Prod.fst).Perm
      ((done.filterMap Done.failure?).map Prod.fst) := (failures_perm_filterMap done).map Prod.fst
  refine (hfailed.append_left (translatedFiles done)).trans ?_
  induction done with
  | nil => exact List.Perm.refl _
  | cons x done ih =>
      have hrest := ih ((failures_perm_filterMap done).map Prod.fst)
      cases hx : x.failure? with
      | none =>
          have htranslated : translatedFiles (x :: done) = x.input :: translatedFiles done := by
            unfold translatedFiles
            rw [List.filter_cons_of_pos (by rw [hx]; rfl), List.map_cons]
          rw [htranslated, List.filterMap_cons_none hx, List.map_cons, List.cons_append]
          exact hrest.cons x.input
      | some failure =>
          have htranslated : translatedFiles (x :: done) = translatedFiles done := by
            unfold translatedFiles
            rw [List.filter_cons_of_neg (by rw [hx]; exact Bool.false_ne_true)]
          rw [htranslated, List.filterMap_cons_some hx, List.map_cons, List.map_cons,
            (failure?_eq_some.mp hx).1]
          exact List.perm_middle.trans (hrest.cons x.input)

/-- **A report accounts for every file once.** -/
theorem batchReport_accounts (done : List Done) (route : Text) :
    Accounts done route (batchReport done route) (translatedFiles done) (failures done) := by
  refine ⟨perm_inputs done, ?_, ?_, ?_⟩
  · intro file hfile
    obtain ⟨x, hx, rfl⟩ := List.mem_map.mp hfile
    obtain ⟨hmem, hnone⟩ := List.mem_filter.mp hx
    cases hresult : x.result with
    | ok output => exact ⟨output, hresult ▸ hmem⟩
    | error t =>
        unfold Done.failure? at hnone
        rw [hresult] at hnone
        cases hnone
  · intro failure hfailure
    obtain ⟨x, hx, hfailed⟩ := List.mem_filterMap.mp
      ((failures_perm_filterMap done).mem_iff.mp hfailure)
    obtain ⟨hinput, t, hresult, htrouble⟩ := failure?_eq_some.mp hfailed
    exact ⟨t, by rw [hinput, ← hresult]; exact hx, htrouble⟩
  · have hlength : (translatedFiles done).length + (failures done).length = done.length := by
      have h := (perm_inputs done).length_eq
      rwa [List.length_append, List.length_map, List.length_map] at h
    have hcount : done.length - (failures done).length = (translatedFiles done).length := by omega
    unfold batchReport summary
    rw [hcount]

/-! ## §2. In any order. -/

/-- Two failures of one file are one. -/
theorem failure_unique (hnodup : (done.map Done.input).Nodup) {a b : Text × Text}
    (ha : a ∈ done.filterMap Done.failure?) (hb : b ∈ done.filterMap Done.failure?)
    (h : a.1 = b.1) : a = b := by
  obtain ⟨x, hx, hxa⟩ := List.mem_filterMap.mp ha
  obtain ⟨y, hy, hyb⟩ := List.mem_filterMap.mp hb
  have hsame : x.input = y.input := by
    rw [← (failure?_eq_some.mp hxa).1, ← (failure?_eq_some.mp hyb).1, h]
  obtain rfl := List.inj_on_of_nodup_map hnodup hx hy hsame
  exact Option.some.inj (hxa.symm.trans hyb)

/-- **The failures are listed in one order**, whatever the order of the jobs was. -/
theorem failures_perm (hnodup : (done.map Done.input).Nodup) (h : done.Perm done') :
    failures done = failures done' := by
  have hperm : (failures done).Perm (failures done') :=
    (failures_perm_filterMap done).trans
      ((h.filterMap Done.failure?).trans (failures_perm_filterMap done').symm)
  have hmem : ∀ {a : Text × Text}, a ∈ failures done → a ∈ done.filterMap Done.failure? :=
    fun ha => (failures_perm_filterMap done).mem_iff.mp ha
  have hsorted : ∀ xs : List Done,
      (failures xs).Pairwise (fun a b => (!decide (b.1 < a.1)) = true) := by
    intro xs
    apply List.pairwise_mergeSort
    · intro a b c hab hbc
      simp only [Bool.not_eq_true', decide_eq_false_iff_not, List.not_lt] at hab hbc ⊢
      exact List.le_trans hab hbc
    · intro a b
      simp only [Bool.or_eq_true, Bool.not_eq_true', decide_eq_false_iff_not, List.not_lt]
      exact List.le_total a.1 b.1
  refine List.Perm.eq_of_pairwise ?_ (hsorted done) (hsorted done') hperm
  intro a b ha hb hab hba
  simp only [Bool.not_eq_true', decide_eq_false_iff_not, List.not_lt] at hab hba
  exact failure_unique hnodup (hmem ha) (hmem (hperm.mem_iff.mpr hb)) (List.le_antisymm hab hba)

/-- **A report does not show in which order the jobs were done.** -/
theorem batchReport_perm (hnodup : (done.map Done.input).Nodup) (h : done.Perm done')
    (route : Text) : batchReport done route = batchReport done' route := by
  unfold batchReport summary
  rw [failures_perm hnodup h, h.length_eq]

end Crosswalk.Command
