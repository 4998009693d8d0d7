/-
  Crosswalk.Proofs.Catalog.Lookups
  ──────────────────────────────────────
  **LOOKUPS THAT LEAVE LOADED ROUTES ALONE.**

  A route that was looked up once is answered from the registry ever after,
  whatever becomes of its file: but a lookup is made with an id as it is
  given, and what it loads is kept under the id without the white space
  around it.  So an id with white space around it (`Settled` says which) is
  loaded anew each time, and each time takes the place of what is kept under
  the trimmed id.

    • `get?_getOrLoad_eq_some`: one lookup, and an entry,
    • `get?_lookUpAll_of_padded`: ids with white space around them are never
      kept,
    • `stays_iff`: the runs in which an entry stays,
    • `lookups_stay`: entries and answers of all runs.
-/
import Crosswalk.Proofs.Catalog.Registry
import Crosswalk.Proofs.Text.Steps

namespace Crosswalk.Catalog.Registry

open Storage (Disk)

variable {g : Registry} {d : Disk} {id k : Text} {r : Route}

/-! ## §1. One lookup. -/

/-- What a lookup puts in has the id without the white space around it. -/
theorem id_of_brought? (h : g.brought? d id = some r) : r.id = Text.trim id :=
  id_of_load (brought?_eq_some.mp h).2

/-- Nothing is put under an id with white space around it. -/
theorem get?_getOrLoad_of_padded (g : Registry) (d : Disk) (id : Text) (hk : Text.trim k ≠ k) :
    (g.getOrLoad d id).registry.get? k = g.get? k := by
  rw [get?_getOrLoad]
  cases hbrought : g.brought? d id with
  | none => rfl
  | some s =>
      have hne : s.id ≠ k := by
        rintro rfl
        rw [id_of_brought? hbrought, Text.trim_trim] at hk
        exact hk rfl
      simp [Option.filter_some, hne]

/-- An entry is never removed by a lookup. -/
theorem isSome_getOrLoad (d : Disk) (id : Text) (h : (g.get? k).isSome = true) :
    ((g.getOrLoad d id).registry.get? k).isSome = true := by
  rw [get?_getOrLoad, Option.isSome_or, h, Bool.or_true]

/-- **An entry stays in a lookup unless another route is loaded for it**, through an id that is its
own but for white space, and under which nothing is kept. -/
theorem get?_getOrLoad_eq_some (d : Disk) (id : Text) (h : g.get? k = some r) :
    (g.getOrLoad d id).registry.get? k = some r ↔
      (Text.trim id = k → g.get? id = none →
        ∀ s, (load d g.directory id).result = .ok s → s = r) := by
  rw [get?_getOrLoad, h]
  constructor
  · intro hstays htrim hnone s hload
    have hbrought : g.brought? d id = some s := brought?_eq_some.mpr ⟨hnone, hload⟩
    have hid : s.id = k := (id_of_brought? hbrought).trans htrim
    rw [hbrought] at hstays
    simpa [Option.filter_some, hid] using hstays
  · intro hsame
    cases hbrought : g.brought? d id with
    | none => rfl
    | some s =>
        obtain ⟨hnone, hload⟩ := brought?_eq_some.mp hbrought
        by_cases hid : s.id = k
        · have htrim : Text.trim id = k := (id_of_brought? hbrought).symm.trans hid
          rw [hsame htrim hnone s hload]
          by_cases hr : r.id = k
          · simp [Option.filter_some, hr]
          · simp [Option.filter_some, hr]
        · simp [Option.filter_some, hid]

/-- Where something is kept under an id, it is the answer. -/
theorem result_getOrLoad_of_isSome (d : Disk) (h : (g.get? id).isSome = true) :
    (g.getOrLoad d id).loaded.result = .ok r ↔ g.get? id = some r := by
  obtain ⟨s, hs⟩ := Option.isSome_iff_exists.mp h
  rw [getOrLoad_of_some d hs, hs]
  simp

/-! ## §2. Runs of lookups. -/

/-- A lookup: the files as they are at that time, and the id as it is given. -/
structure Lookup where
  disk : Disk
  id : Text

/-- The registry after lookups one after the other. -/
def lookUpAll (g : Registry) (calls : List Lookup) : Registry :=
  calls.foldl (fun g c => (g.getOrLoad c.disk c.id).registry) g

/-- Something is kept under the id, or there is no white space around it. -/
def Settled (g : Registry) (id : Text) : Prop :=
  Text.trim id = id ∨ (g.get? id).isSome = true

/-- No lookup brings another route for an entry: an id that is that of the entry but for white space,
and under which nothing is kept, leads to the same route or to none. -/
def Reaffirmed (g : Registry) (k : Text) (r : Route) (calls : List Lookup) : Prop :=
  ∀ c ∈ calls, Text.trim c.id = k → g.get? c.id = none →
    ∀ s, (load c.disk g.directory c.id).result = .ok s → s = r

theorem lookUpAll_cons (g : Registry) (c : Lookup) (calls : List Lookup) :
    g.lookUpAll (c :: calls) = (g.getOrLoad c.disk c.id).registry.lookUpAll calls :=
  rfl

theorem directory_lookUpAll : ∀ (calls : List Lookup) (g : Registry),
    (g.lookUpAll calls).directory = g.directory := by
  intro calls
  induction calls with
  | nil => intro g; rfl
  | cons c calls ih =>
      intro g
      rw [lookUpAll_cons, ih, directory_getOrLoad]

/-- **Ids with white space around them are never kept by lookups.** -/
theorem get?_lookUpAll_of_padded (hk : Text.trim k ≠ k) : ∀ (calls : List Lookup) (g : Registry),
    (g.lookUpAll calls).get? k = g.get? k := by
  intro calls
  induction calls with
  | nil => intro g; rfl
  | cons c calls ih =>
      intro g
      rw [lookUpAll_cons, ih, get?_getOrLoad_of_padded g c.disk c.id hk]

theorem isSome_lookUpAll : ∀ (calls : List Lookup) {g : Registry}, (g.get? k).isSome = true →
    ((g.lookUpAll calls).get? k).isSome = true := by
  intro calls
  induction calls with
  | nil => intro g h; exact h
  | cons c calls ih =>
      intro g h
      rw [lookUpAll_cons]
      exact ih (isSome_getOrLoad c.disk c.id h)

/-- With settled ids alone, no entry gets another route. -/
theorem reaffirmed_of_settled {calls : List Lookup} (hsettled : ∀ c ∈ calls, g.Settled c.id)
    (h : (g.get? k).isSome = true) : g.Reaffirmed k r calls := by
  intro c hc htrim hnone s _
  rcases hsettled c hc with hown | hkept
  · -- the id is that of the entry, so something is kept under it
    rw [← hown, htrim] at hnone
    rw [hnone] at h
    cases h
  · rw [hnone] at hkept
    cases hkept

/-- A lookup that leaves an entry changes nothing under the ids that matter for it. -/
theorem reaffirmed_getOrLoad_iff (d : Disk) (id : Text) (calls : List Lookup) (h : g.get? k = some r)
    (hstays : (g.getOrLoad d id).registry.get? k = some r) :
    (g.getOrLoad d id).registry.Reaffirmed k r calls ↔ g.Reaffirmed k r calls := by
  have hsame : ∀ c : Lookup, Text.trim c.id = k →
      ((g.getOrLoad d id).registry.get? c.id = none ↔ g.get? c.id = none) := by
    intro c htrim
    by_cases hown : Text.trim c.id = c.id
    · rw [← hown, htrim, hstays, h]
    · rw [get?_getOrLoad_of_padded g d id hown]
  unfold Reaffirmed
  rw [directory_getOrLoad]
  constructor
  · intro hr c hc htrim hnone
    exact hr c hc htrim ((hsame c htrim).mpr hnone)
  · intro hr c hc htrim hnone
    exact hr c hc htrim ((hsame c htrim).mp hnone)

/-- **An entry stays during a run exactly when no lookup brings another route for it.** -/
theorem stays_iff : ∀ (calls : List Lookup) {g : Registry}, g.get? k = some r →
    ((∀ front, front <+: calls → (g.lookUpAll front).get? k = some r) ↔ g.Reaffirmed k r calls) := by
  intro calls
  induction calls with
  | nil =>
      intro g h
      refine ⟨fun _ c hc => absurd hc List.not_mem_nil, fun _ front hfront => ?_⟩
      rw [List.prefix_nil.mp hfront]
      exact h
  | cons c calls ih =>
      intro g h
      have hfirst := get?_getOrLoad_eq_some c.disk c.id h
      constructor
      · intro hall
        have hstays : (g.getOrLoad c.disk c.id).registry.get? k = some r :=
          hall [c] (by simp)
        have htail := (reaffirmed_getOrLoad_iff c.disk c.id calls h hstays).mp <|
          (ih hstays).mp fun front hfront => hall (c :: front) (by simpa using hfront)
        intro c' hc'
        rcases List.mem_cons.mp hc' with rfl | hc'
        · exact hfirst.mp hstays
        · exact htail c' hc'
      · intro hr front hfront
        have hstays : (g.getOrLoad c.disk c.id).registry.get? k = some r :=
          hfirst.mpr (hr c List.mem_cons_self)
        rcases List.prefix_cons_iff.mp hfront with rfl | ⟨rest, rfl, hrestfront⟩
        · exact h
        · have htail := (reaffirmed_getOrLoad_iff c.disk c.id calls h hstays).mpr fun c' hc' =>
            hr c' (List.mem_cons_of_mem c hc')
          exact (ih hstays).mpr htail rest hrestfront

/-! ## §3. Answers. -/

/-- A settled id that was answered is kept with its answer. -/
theorem get?_of_answer (hsettled : g.Settled id) (h : (g.getOrLoad d id).loaded.result = .ok r) :
    (g.getOrLoad d id).registry.get? id = some r := by
  cases hget : g.get? id with
  | some s =>
      have hanswer := (result_getOrLoad_of_isSome d (by rw [hget]; rfl)).mp h
      rw [getOrLoad_of_some d hget]
      exact hanswer
  | none =>
      have hown : Text.trim id = id := by
        rcases hsettled with hown | hkept
        · exact hown
        · rw [hget] at hkept
          cases hkept
      rw [getOrLoad_of_none d hget, loaded_refresh] at h
      have hbrought : g.brought? d id = some r := brought?_eq_some.mpr ⟨hget, h⟩
      have hid : r.id = id := (id_of_brought? hbrought).trans hown
      rw [get?_getOrLoad, hbrought]
      simp [Option.filter_some, hid]

/-- An id that is not settled is loaded anew after every run. -/
theorem loaded_of_not_settled (hloose : ¬ g.Settled id) (d later : Disk) (calls : List Lookup) :
    (((g.getOrLoad d id).registry.lookUpAll calls).getOrLoad later id).loaded
      = load later g.directory id := by
  have hown : Text.trim id ≠ id := fun hown => hloose (.inl hown)
  have hnone : g.get? id = none := by
    cases hget : g.get? id with
    | none => rfl
    | some s => exact absurd (.inr (by rw [hget]; rfl)) hloose
  have hstill : ((g.getOrLoad d id).registry.lookUpAll calls).get? id = none := by
    rw [get?_lookUpAll_of_padded hown, get?_getOrLoad_of_padded g d id hown, hnone]
  rw [getOrLoad_of_none later hstill, loaded_refresh, directory_lookUpAll, directory_getOrLoad]

/-- **LOADED ROUTES STAY LOADED.**  For every registry and every run of lookups, with any ids and any
files at each of them:

  • an entry stays as it is, at every moment of the run, exactly when no lookup brings another route
    for it (`Reaffirmed`), and none does when all ids are settled;
  • an answer to a settled id is given again, whatever the files are, at every later moment of the
    run, exactly when no lookup brings another route for its entry;
  • an id that is not settled is answered from the files as they are each time. -/
theorem lookups_stay (g : Registry) (calls : List Lookup) :
    (∀ k r, g.get? k = some r →
      ((∀ front, front <+: calls → (g.lookUpAll front).get? k = some r) ↔ g.Reaffirmed k r calls)
        ∧ ((∀ c ∈ calls, g.Settled c.id) → g.Reaffirmed k r calls))
    ∧ ∀ (d : Disk) (id : Text) (r : Route), (g.getOrLoad d id).loaded.result = .ok r →
        (g.Settled id →
          ((∀ front, front <+: calls → ∀ later : Disk,
              (((g.getOrLoad d id).registry.lookUpAll front).getOrLoad later id).loaded.result = .ok r)
            ↔ (g.getOrLoad d id).registry.Reaffirmed id r calls))
        ∧ (¬ g.Settled id → ∀ later : Disk,
            (((g.getOrLoad d id).registry.lookUpAll calls).getOrLoad later id).loaded
              = load later g.directory id) := by
  constructor
  · intro k r hget
    exact ⟨stays_iff calls hget, fun hsettled => reaffirmed_of_settled hsettled (by rw [hget]; rfl)⟩
  · intro d id r hanswer
    constructor
    · intro hsettled
      have hkept := get?_of_answer hsettled hanswer
      rw [← stays_iff calls hkept]
      have hthere : ∀ front, (((g.getOrLoad d id).registry.lookUpAll front).get? id).isSome = true :=
        fun front => isSome_lookUpAll front (by rw [hkept]; rfl)
      constructor
      · intro hagain front hfront
        exact (result_getOrLoad_of_isSome d (hthere front)).mp (hagain front hfront d)
      · intro hstays front hfront later
        exact (result_getOrLoad_of_isSome later (hthere front)).mpr (hstays front hfront)
    · intro hloose later
      exact loaded_of_not_settled hloose d later calls

/-- A directory with one route, whose file has the given content. -/
def oneRoute (content : Text) : Disk :=
  ⟨[(["routes".toList, "r.yaml".toList], .file (.text content)), (["routes".toList], .directory)]⟩

/-- The route with that file. -/
def inMode (mode : Mode) : Route :=
  { Route.empty with id := "r".toList, mode := some mode }

/-- A registry that keeps it in one of the modes. -/
def keeping : Registry :=
  (empty "routes".toList).insert (inMode .active)

/-- A lookup with white space before the id gives what the file says at the time, and takes the place
of what is kept under the trimmed id.  A lookup with the trimmed id leaves it where it is, and gets it
again. -/
theorem lookups_stay_padded :
    keeping.get? "r".toList = some (inMode .active)
      ∧ ¬ keeping.Settled " r".toList
      ∧ (keeping.getOrLoad (oneRoute "mode: ACTIVE".toList) " r".toList).loaded.result
        = .ok (inMode .active)
      ∧ (((keeping.getOrLoad (oneRoute "mode: ACTIVE".toList) " r".toList).registry.lookUpAll
          []).getOrLoad (oneRoute "mode: PASSIVE".toList) " r".toList).loaded.result
        = .ok (inMode .passive)
      ∧ (¬ ∀ front, front <+: [⟨oneRoute "mode: PASSIVE".toList, " r".toList⟩] →
          (keeping.lookUpAll front).get? "r".toList = some (inMode .active))
      ∧ (∀ front, front <+: [⟨oneRoute "mode: PASSIVE".toList, "r".toList⟩] →
          (keeping.lookUpAll front).get? "r".toList = some (inMode .active))
      ∧ ∀ front, front <+: [⟨oneRoute "mode: PASSIVE".toList, "r".toList⟩] → ∀ later : Disk,
          (((keeping.getOrLoad (oneRoute "mode: ACTIVE".toList) "r".toList).registry.lookUpAll
            front).getOrLoad later "r".toList).loaded.result = .ok (inMode .active) := by
  have hactive : (load (oneRoute "mode: ACTIVE".toList) keeping.directory " r".toList).result
      = .ok (inMode .active) := by decide +kernel
  have hpassive : (load (oneRoute "mode: PASSIVE".toList) keeping.directory " r".toList).result
      = .ok (inMode .passive) := by decide +kernel
  have hkept : keeping.get? "r".toList = some (inMode .active) := by decide
  have hnone : keeping.get? " r".toList = none := by decide
  have hloose : ¬ keeping.Settled " r".toList := by
    rintro (hown | hthere)
    · exact absurd hown (by decide)
    · rw [hnone] at hthere
      cases hthere
  have hfirst : (keeping.getOrLoad (oneRoute "mode: ACTIVE".toList) " r".toList).loaded.result
      = .ok (inMode .active) := by
    rw [getOrLoad_of_none _ hnone, loaded_refresh, hactive]
  have hstays := (lookups_stay keeping [⟨oneRoute "mode: PASSIVE".toList, "r".toList⟩]).1 _ _ hkept
  have hsettled : keeping.Settled "r".toList := .inl (by decide)
  have hreaffirmed := hstays.2 fun c hc => by
    rw [List.mem_singleton.mp hc]
    exact hsettled
  refine ⟨hkept, hloose, hfirst, ?_, ?_, hstays.1.mpr hreaffirmed, ?_⟩
  · rw [((lookups_stay keeping []).2 _ _ _ hfirst).2 hloose, hpassive]
  · intro hall
    have hbrings := ((lookups_stay keeping _).1 _ _ hkept).1.mp hall
    have hsame := hbrings _ List.mem_cons_self (by decide) hnone _ hpassive
    exact absurd hsame (by decide)
  · have hanswer : (keeping.getOrLoad (oneRoute "mode: ACTIVE".toList) "r".toList).loaded.result
        = .ok (inMode .active) := by
      rw [getOrLoad_of_some _ hkept]
    refine (((lookups_stay keeping _).2 _ _ _ hanswer).1 hsettled).mpr ?_
    rw [getOrLoad_of_some _ hkept]
    exact hreaffirmed

end Crosswalk.Catalog.Registry
