/-
  Crosswalk.Proofs.Catalog.Registry
  ──────────────────────────────────────
  **WHAT A REGISTRY KEEPS.**

  A registry is a map from ids to routes.  Each operation is known by what is
  found under every id afterwards, and by the routes that it puts in.

    • `get?_insert`, `get?_erase`, `get?_restrict`, `get?_insertAll`: entries,
    • `get?_getOrLoad`, `get?_refresh`: loading,
    • `size_eq_iff`: how many ids there are.
-/
import Mathlib.Data.List.Nodup
import Mathlib.Data.List.Perm.Subperm
import Crosswalk.Catalog.Registry
import Crosswalk.Proofs.Catalog.Loader

namespace Crosswalk.Catalog.Registry

open Storage (Disk)

variable {g : Registry} {d : Disk} {id k : Text} {r s : Route} {routes : List Route}

theorem toOption_eq_some {α : Type} {x : Except LoadError α} {a : α} :
    x.toOption = some a ↔ x = .ok a := by
  cases x with
  | error e => simp [Except.toOption]
  | ok b => simp [Except.toOption]

/-! ## §1. Entries. -/

/-- The ids under which something is kept. -/
def keys (g : Registry) : List Text :=
  g.entries.map Prod.fst

theorem mem_keys : k ∈ g.keys ↔ (g.get? k).isSome = true := by
  unfold keys get?
  rw [Option.isSome_map, List.find?_isSome]
  simp only [List.mem_map, decide_eq_true_eq]

/-- Nothing is kept at the start. -/
@[simp] theorem get?_empty (directory k : Text) : (empty directory).get? k = none :=
  rfl

theorem get?_restrict (g : Registry) (keeps : Text → Bool) (k : Text) :
    (g.restrict keeps).get? k = if keeps k then g.get? k else none := by
  unfold get? restrict
  rw [List.find?_filter]
  cases hk : keeps k with
  | true =>
      have hsame : (fun e : Text × Route => decide (keeps e.1 = true ∧ decide (e.1 = k) = true))
          = (fun e => decide (e.1 = k)) := by
        funext e
        by_cases he : e.1 = k
        · simp [he, hk]
        · simp [he]
      rw [hsame]
      rfl
  | false =>
      have hnone : g.entries.find?
          (fun e => decide (keeps e.1 = true ∧ decide (e.1 = k) = true)) = none := by
        rw [List.find?_eq_none]
        intro e _
        by_cases he : e.1 = k
        · simp [he, hk]
        · simp [he]
      rw [hnone]
      rfl

theorem get?_erase (g : Registry) (id k : Text) :
    (g.erase id).get? k = if k = id then none else g.get? k := by
  unfold erase
  rw [get?_restrict]
  by_cases hk : k = id
  · simp [hk]
  · simp [hk]

/-- **A route is found under its id, and nothing else changes.** -/
theorem get?_insert (g : Registry) (r : Route) (k : Text) :
    (g.insert r).get? k = if k = r.id then some r else g.get? k := by
  have herase := get?_erase g r.id k
  unfold get? at herase ⊢
  unfold insert
  rw [List.find?_cons]
  by_cases hk : k = r.id
  · simp [hk]
  · have hne : decide (r.id = k) = false := decide_eq_false fun h => hk h.symm
    rw [if_neg hk] at herase ⊢
    rw [hne]
    exact herase

/-- The last one of the routes with an id. -/
def lastOf (routes : List Route) (k : Text) : Option Route :=
  routes.reverse.find? (fun r => decide (r.id = k))

/-- **The last route with an id stays, or what was there before.** -/
theorem get?_insertAll (routes : List Route) : ∀ (g : Registry) (k : Text),
    (g.insertAll routes).get? k = (lastOf routes k).or (g.get? k) := by
  induction routes with
  | nil => intro g k; rfl
  | cons r routes ih =>
      intro g k
      show ((g.insert r).insertAll routes).get? k = _
      rw [ih, get?_insert]
      unfold lastOf
      rw [List.reverse_cons, List.find?_append, Option.or_assoc, List.find?_singleton]
      by_cases hk : k = r.id
      · simp [hk]
      · have hne : decide (r.id = k) = false := decide_eq_false fun h => hk h.symm
        rw [if_neg hk, hne]
        rfl

theorem lastOf_eq_some (h : lastOf routes k = some r) : r ∈ routes ∧ r.id = k := by
  unfold lastOf at h
  exact ⟨List.mem_reverse.mp (List.mem_of_find?_eq_some h), by simpa using List.find?_some h⟩

theorem lastOf_eq_none : lastOf routes k = none ↔ k ∉ routes.map Route.id := by
  unfold lastOf
  rw [List.find?_eq_none]
  simp only [List.mem_reverse, decide_eq_true_eq, List.mem_map, not_exists, not_and]

theorem lastOf_toList (o : Option Route) (k : Text) :
    lastOf o.toList k = o.filter (fun r => decide (r.id = k)) := by
  cases o with
  | none => rfl
  | some r => exact List.find?_singleton

/-- With one route under each id, the last one is the only one. -/
theorem lastOf_of_mem (hdistinct : (routes.map Route.id).Nodup) (hr : r ∈ routes) :
    lastOf routes r.id = some r := by
  cases hlast : lastOf routes r.id with
  | none => exact absurd (List.mem_map_of_mem hr) (lastOf_eq_none.mp hlast)
  | some s =>
      obtain ⟨hs, hid⟩ := lastOf_eq_some hlast
      rw [List.inj_on_of_nodup_map hdistinct hs hr hid]

/-! ## §2. Single routes. -/

theorem refresh_of_error {e : LoadError} (h : (load d g.directory id).result = .error e) :
    g.refresh d id = ⟨g, load d g.directory id⟩ := by
  unfold refresh
  simp only [h]

theorem refresh_of_ok (h : (load d g.directory id).result = .ok r) :
    g.refresh d id = ⟨g.insert r, load d g.directory id⟩ := by
  unfold refresh
  simp only [h]

theorem loaded_refresh (g : Registry) (d : Disk) (id : Text) :
    (g.refresh d id).loaded = load d g.directory id := by
  cases hload : (load d g.directory id).result with
  | error e => rw [refresh_of_error hload]
  | ok r => rw [refresh_of_ok hload]

theorem getOrLoad_of_some (d : Disk) (h : g.get? id = some r) :
    g.getOrLoad d id = ⟨g, ⟨[], .ok r⟩⟩ := by
  unfold getOrLoad
  rw [h]

theorem getOrLoad_of_none (d : Disk) (h : g.get? id = none) : g.getOrLoad d id = g.refresh d id := by
  unfold getOrLoad
  rw [h]

/-! ## §3. Directories. -/

@[simp] theorem directory_insert (g : Registry) (r : Route) : (g.insert r).directory = g.directory :=
  rfl

@[simp] theorem directory_erase (g : Registry) (id : Text) : (g.erase id).directory = g.directory :=
  rfl

@[simp] theorem directory_insertAll (routes : List Route) : ∀ g : Registry,
    (g.insertAll routes).directory = g.directory := by
  induction routes with
  | nil => intro g; rfl
  | cons r routes ih =>
      intro g
      show ((g.insert r).insertAll routes).directory = _
      rw [ih, directory_insert]

@[simp] theorem directory_refresh (g : Registry) (d : Disk) (id : Text) :
    (g.refresh d id).registry.directory = g.directory := by
  cases hload : (load d g.directory id).result with
  | error e => rw [refresh_of_error hload]
  | ok r => rw [refresh_of_ok hload, directory_insert]

@[simp] theorem directory_getOrLoad (g : Registry) (d : Disk) (id : Text) :
    (g.getOrLoad d id).registry.directory = g.directory := by
  unfold getOrLoad
  cases g.get? id with
  | some r => rfl
  | none => exact directory_refresh g d id

/-! ## §4. Loading. -/

/-- **A refreshed route replaces what is under its id; a route that cannot be loaded changes
nothing.** -/
theorem get?_refresh (g : Registry) (d : Disk) (id k : Text) :
    (g.refresh d id).registry.get? k =
      (((load d g.directory id).result.toOption).filter (fun r => decide (r.id = k))).or
        (g.get? k) := by
  cases hload : (load d g.directory id).result with
  | error e =>
      rw [refresh_of_error hload]
      rfl
  | ok r =>
      rw [refresh_of_ok hload, get?_insert, Except.toOption, Option.filter_some]
      by_cases hk : k = r.id
      · simp [hk]
      · have hne : decide (r.id = k) = false := decide_eq_false fun h => hk h.symm
        rw [if_neg hk, hne]
        rfl

/-- The route that a lookup puts in: what is loaded, when nothing is kept under the id. -/
def brought? (g : Registry) (d : Disk) (id : Text) : Option Route :=
  if (g.get? id).isSome then none else (load d g.directory id).result.toOption

/-- **A lookup changes at most what is under the id of the route that it puts in.** -/
theorem get?_getOrLoad (g : Registry) (d : Disk) (id k : Text) :
    (g.getOrLoad d id).registry.get? k =
      ((g.brought? d id).filter (fun r => decide (r.id = k))).or (g.get? k) := by
  unfold brought?
  cases hget : g.get? id with
  | some r =>
      rw [getOrLoad_of_some d hget]
      rfl
  | none =>
      rw [getOrLoad_of_none d hget, get?_refresh]
      rfl

theorem brought?_eq_some :
    g.brought? d id = some r ↔ g.get? id = none ∧ (load d g.directory id).result = .ok r := by
  unfold brought?
  cases hget : g.get? id with
  | some s => simp
  | none => simp [toOption_eq_some]

/-! ## §5. Sizes. -/

/-- **There are as many entries as given ids exactly when no id is given twice.** -/
theorem size_eq_iff {ids : List Text} (h : ∀ k, k ∈ g.keys ↔ k ∈ ids) :
    g.size = ids.length ↔ ids.Nodup := by
  have hsize : g.size = g.keys.length := (List.length_map Prod.fst).symm
  have hsub : g.keys.Subperm ids := List.subperm_of_subset g.distinct fun k hk => (h k).mp hk
  rw [hsize]
  constructor
  · intro hlength
    exact (hsub.perm_of_length_le (Nat.le_of_eq hlength.symm)).nodup_iff.mp g.distinct
  · intro hids
    exact ((List.perm_ext_iff_of_nodup g.distinct hids).mpr h).length_eq

end Crosswalk.Catalog.Registry
