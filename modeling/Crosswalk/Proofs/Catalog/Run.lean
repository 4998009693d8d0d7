/-
  Crosswalk.Proofs.Catalog.Run
  ──────────────────────────────────────
  **RUNS OF A REGISTRY.**

  Five operations work on a registry, and the files can be any others at each
  of them.  One operation is known by the routes that it puts in and by what
  it keeps of the rest; what holds of a run comes from that by induction on
  its events.

    • `get?_perform`: one operation,
    • `registry_perform_of_error`: an operation that fails,
    • `Keyed.run`, `get?_run_eq_some`: entries after a run,
    • `run_consistent`: the law of all runs.
-/
import Crosswalk.Proofs.Catalog.Directory

namespace Crosswalk.Catalog

open Storage (Disk)

variable {g : Registry} {d : Disk} {id k : Text} {r : Route} {e : LoadError}

/-! ## §1. Operations. -/

/-- What can be done with a registry. -/
inductive Operation
  | register (r : Route)
  | getOrLoad (id : Text)
  | refresh (id : Text)
  | refreshAll
  | evict (id : Text)

/-- A step, but for what it gave when it went well. -/
def Step.done {α : Type} (s : Step α) : Step Unit :=
  ⟨s.registry, s.loaded.renamed, s.loaded.result.map fun _ => ()⟩

theorem Step.result_done_eq_error {α : Type} {s : Step α} :
    s.done.loaded.result = .error e ↔ s.loaded.result = .error e := by
  unfold Step.done
  cases s.loaded.result with
  | error e' => simp [Except.map]
  | ok a => simp [Except.map]

namespace Operation

/-- Does an operation with the files as they are. -/
def perform (g : Registry) (d : Disk) : Operation → Step Unit
  | register r => ⟨g.insert r, [], .ok ()⟩
  | getOrLoad id => (g.getOrLoad d id).done
  | refresh id => (g.refresh d id).done
  | refreshAll => (g.refreshAll d).done
  | evict id => ⟨g.erase id, [], .ok ()⟩

/-- The routes that an operation puts in, one after the other. -/
def puts (g : Registry) (d : Disk) : Operation → List Route
  | register r => [r]
  | getOrLoad id => (g.brought? d id).toList
  | refresh id => (load d g.directory id).result.toOption.toList
  | refreshAll => (loadAll d g.directory).result.toOption.getD []
  | evict _ => []

/-- An operation leaves what is under an id, unless it puts another route there. -/
def keeps (g : Registry) (d : Disk) (k : Text) : Operation → Bool
  | evict id => decide (k ≠ id)
  | refreshAll => (loadAll d g.directory).result.toOption.isNone
  | register _ | getOrLoad _ | refresh _ => true

/-- **One operation**: under each id is the last route that it puts there, or what it leaves. -/
theorem get?_perform (g : Registry) (d : Disk) (op : Operation) (k : Text) :
    (op.perform g d).registry.get? k =
      (Registry.lastOf (op.puts g d) k).or (if op.keeps g d k then g.get? k else none) := by
  cases op with
  | register r => exact Registry.get?_insertAll [r] g k
  | getOrLoad id =>
      show (g.getOrLoad d id).registry.get? k
        = (Registry.lastOf (g.brought? d id).toList k).or (g.get? k)
      rw [Registry.get?_getOrLoad, Registry.lastOf_toList]
  | refresh id =>
      show (g.refresh d id).registry.get? k
        = (Registry.lastOf (load d g.directory id).result.toOption.toList k).or (g.get? k)
      rw [Registry.get?_refresh, Registry.lastOf_toList]
  | refreshAll =>
      show (g.refreshAll d).registry.get? k = _
      unfold puts keeps
      cases hall : (loadAll d g.directory).result with
      | error e =>
          rw [refreshAll_of_error g hall]
          rfl
      | ok routes =>
          rw [get?_refreshAll g hall]
          exact Option.or_none.symm
  | evict id =>
      show (g.erase id).get? k = if decide (k ≠ id) = true then g.get? k else none
      rw [Registry.get?_erase]
      by_cases hk : k = id
      · simp [hk]
      · simp [hk]

/-- **An operation that fails changes nothing.** -/
theorem registry_perform_of_error {op : Operation} (h : (op.perform g d).loaded.result = .error e) :
    (op.perform g d).registry = g := by
  cases op with
  | register r => cases h
  | getOrLoad id =>
      show (g.getOrLoad d id).registry = g
      have hfailed : (g.getOrLoad d id).loaded.result = .error e := Step.result_done_eq_error.mp h
      cases hget : g.get? id with
      | some r => rw [Registry.getOrLoad_of_some d hget]
      | none =>
          rw [Registry.getOrLoad_of_none d hget] at hfailed ⊢
          rw [Registry.loaded_refresh] at hfailed
          rw [Registry.refresh_of_error hfailed]
  | refresh id =>
      show (g.refresh d id).registry = g
      have hfailed : (g.refresh d id).loaded.result = .error e := Step.result_done_eq_error.mp h
      rw [Registry.loaded_refresh] at hfailed
      rw [Registry.refresh_of_error hfailed]
  | refreshAll =>
      show (g.refreshAll d).registry = g
      have hfailed : (g.refreshAll d).loaded.result = .error e := Step.result_done_eq_error.mp h
      cases hall : (loadAll d g.directory).result with
      | error e' => rw [refreshAll_of_error g hall]
      | ok routes =>
          rw [refreshAll_of_ok g hall] at hfailed
          cases hfailed
  | evict id => cases h

/-- What is known of a route that an operation puts in: it has passed its check, unless it is
registered as it is. -/
def AccountsFor (r : Route) : Operation → Prop
  | register s => s = r
  | getOrLoad _ | refresh _ | refreshAll | evict _ => r.validate = .ok ()

theorem accountsFor_of_mem_puts {op : Operation} (h : r ∈ op.puts g d) : op.AccountsFor r := by
  cases op with
  | register s => exact (List.mem_singleton.mp h).symm
  | getOrLoad id =>
      have hbrought : g.brought? d id = some r := Option.mem_toList.mp h
      exact validate_of_load (Registry.brought?_eq_some.mp hbrought).2
  | refresh id =>
      have hload : (load d g.directory id).result.toOption = some r := Option.mem_toList.mp h
      exact validate_of_load (Registry.toOption_eq_some.mp hload)
  | refreshAll =>
      change r ∈ (loadAll d g.directory).result.toOption.getD [] at h
      cases hall : (loadAll d g.directory).result with
      | error e =>
          rw [hall] at h
          cases h
      | ok routes =>
          rw [hall] at h
          exact validate_of_loadAll hall h
  | evict id => cases h

/-- A single route is put under the id that it was asked for, without the white space around it. -/
theorem get?_perform_of_ne (g : Registry) (d : Disk) {op : Operation}
    (hop : op = .getOrLoad id ∨ op = .refresh id) (hk : k ≠ Text.trim id) :
    (op.perform g d).registry.get? k = g.get? k := by
  have hkeeps : op.keeps g d k = true := by
    rcases hop with rfl | rfl <;> rfl
  have hputs : ∀ s ∈ op.puts g d, (load d g.directory id).result = .ok s := by
    intro s hs
    rcases hop with rfl | rfl
    · have hbrought : g.brought? d id = some s := Option.mem_toList.mp hs
      exact (Registry.brought?_eq_some.mp hbrought).2
    · have hload : (load d g.directory id).result.toOption = some s := Option.mem_toList.mp hs
      exact Registry.toOption_eq_some.mp hload
  have hnone : Registry.lastOf (op.puts g d) k = none := by
    apply Registry.lastOf_eq_none.mpr
    intro hmem
    obtain ⟨s, hs, rfl⟩ := List.mem_map.mp hmem
    exact hk (id_of_load (hputs s hs))
  rw [get?_perform, hnone, hkeeps]
  rfl

theorem directory_perform (g : Registry) (d : Disk) (op : Operation) :
    (op.perform g d).registry.directory = g.directory := by
  cases op with
  | register r => exact Registry.directory_insert g r
  | getOrLoad id => exact Registry.directory_getOrLoad g d id
  | refresh id => exact Registry.directory_refresh g d id
  | refreshAll =>
      show (g.refreshAll d).registry.directory = g.directory
      cases hall : (loadAll d g.directory).result with
      | error e => rw [refreshAll_of_error g hall]
      | ok routes =>
          rw [refreshAll_of_ok g hall, Registry.directory_insertAll]
          rfl
  | evict id => exact Registry.directory_erase g id

end Operation

/-! ## §2. Runs. -/

/-- An operation, and the files as they are at that time. -/
structure Event where
  disk : Disk
  operation : Operation

namespace Registry

/-- The registry after an event. -/
def after (g : Registry) (v : Event) : Registry :=
  (v.operation.perform g v.disk).registry

/-- The registry after events one after the other. -/
def run (g : Registry) (events : List Event) : Registry :=
  events.foldl after g

/-- The last operation of a run that put a route under the id. -/
def lastPut? (k : Text) : Registry → List Event → Option Operation
  | _, [] => none
  | g, v :: events =>
    (lastPut? k (g.after v) events).or
      (if (lastOf (v.operation.puts g v.disk) k).isSome then some v.operation else none)

/-- What is kept after an event was put there by it, or was there before. -/
theorem get?_after_eq_some {v : Event} (h : (g.after v).get? k = some r) :
    lastOf (v.operation.puts g v.disk) k = some r
      ∨ (lastOf (v.operation.puts g v.disk) k = none ∧ g.get? k = some r) := by
  rw [after, Operation.get?_perform] at h
  cases hlast : lastOf (v.operation.puts g v.disk) k with
  | some s =>
      rw [hlast] at h
      exact .inl h
  | none =>
      rw [hlast, Option.none_or] at h
      split at h
      · exact .inr ⟨rfl, h⟩
      · cases h

/-- Every route is kept under its own id. -/
def Keyed (g : Registry) : Prop :=
  ∀ k r, g.get? k = some r → r.id = k

theorem keyed_empty (directory : Text) : (empty directory).Keyed := by
  intro k r h
  cases h

theorem Keyed.after (hg : g.Keyed) (v : Event) : (g.after v).Keyed := by
  intro k r h
  rcases get?_after_eq_some h with hlast | ⟨-, hbefore⟩
  · exact (lastOf_eq_some hlast).2
  · exact hg k r hbefore

/-- **After every run each route is kept under its own id.** -/
theorem Keyed.run (hg : g.Keyed) (events : List Event) : (g.run events).Keyed := by
  induction events generalizing g with
  | nil => exact hg
  | cons v events ih => exact ih (hg.after v)

theorem directory_run (g : Registry) (events : List Event) :
    (g.run events).directory = g.directory := by
  induction events generalizing g with
  | nil => rfl
  | cons v events ih => exact (ih (g.after v)).trans (Operation.directory_perform g v.disk v.operation)

/-- **Whatever is kept after a run was put there by one of its operations, which accounts for it, or
was there before.** -/
theorem get?_run_eq_some {events : List Event} (h : (g.run events).get? k = some r) :
    (∃ op, lastPut? k g events = some op ∧ op.AccountsFor r)
      ∨ (lastPut? k g events = none ∧ g.get? k = some r) := by
  induction events generalizing g with
  | nil => exact .inr ⟨rfl, h⟩
  | cons v events ih =>
      rcases ih h with ⟨op, hput, haccounts⟩ | ⟨hput, hget⟩
      · refine .inl ⟨op, ?_, haccounts⟩
        rw [lastPut?, hput]
        rfl
      · rw [lastPut?, hput, Option.none_or]
        rcases get?_after_eq_some hget with hlast | ⟨hlast, hbefore⟩
        · rw [hlast]
          exact .inl ⟨v.operation, rfl, Operation.accountsFor_of_mem_puts (lastOf_eq_some hlast).1⟩
        · rw [hlast]
          exact .inr ⟨rfl, hbefore⟩

/-- **REGISTRIES STAY CONSISTENT.**  After every run from an empty registry, with any operations and
any files at each of them:

  • each route is kept under its own id, and has passed its check unless the last operation that put
    a route there registered this one as it is;
  • an operation that fails leaves the registry as it is;
  • a refreshed route, or one that is looked up, changes nothing but what is under the id without the
    white space around it;
  • after all routes were loaded, the ids that something is kept under are the stems of the route
    files in the directory. -/
theorem run_consistent (directory : Text) (events : List Event) :
    let g := (empty directory).run events
    (∀ k r, g.get? k = some r →
        r.id = k ∧ ∃ op, lastPut? k (empty directory) events = some op ∧ op.AccountsFor r)
    ∧ (∀ (d : Disk) (op : Operation) (e : LoadError), (op.perform g d).loaded.result = .error e →
        (op.perform g d).registry = g)
    ∧ (∀ (d : Disk) (id k : Text), k ≠ Text.trim id →
        (g.refresh d id).registry.get? k = g.get? k
          ∧ (g.getOrLoad d id).registry.get? k = g.get? k)
    ∧ ∀ (d : Disk) (n : Nat), d.WellFormed → (g.refreshAll d).loaded.result = .ok n →
        ∀ k, k ∈ (g.refreshAll d).registry.keys ↔ ∃ extension, HasRoute d directory k extension := by
  intro g
  refine ⟨?_, fun d op e => Operation.registry_perform_of_error, ?_, ?_⟩
  · intro k r hget
    refine ⟨(keyed_empty directory).run events k r hget, ?_⟩
    rcases get?_run_eq_some hget with hput | ⟨-, hbefore⟩
    · exact hput
    · rw [get?_empty] at hbefore
      cases hbefore
  · intro d id k hk
    exact ⟨Operation.get?_perform_of_ne g d (.inr rfl) hk,
      Operation.get?_perform_of_ne g d (.inl rfl) hk⟩
  · intro d n hd hcount k
    have hdirectory : g.directory = directory := directory_run (empty directory) events
    cases hall : (loadAll d g.directory).result with
    | error e =>
        rw [refreshAll_of_error g hall] at hcount
        cases hcount
    | ok routes =>
        rw [mem_keys_refreshAll g hall, ← hdirectory]
        exact mem_ids_iff hd hall

/-- A route that does not pass its check. -/
def rough : Route :=
  { Route.empty with id := "m".toList, rootName := some "1".toList }

/-- A run in which that route is registered, and another one is looked up with white space before its
id. -/
def mixed : List Event :=
  [⟨twins, .register rough⟩, ⟨twins, .getOrLoad " a".toList⟩]

/-- The registry after that run. -/
def mixedEnd : Registry :=
  (empty "routes".toList).run mixed

/-- Both routes are kept under their ids.  A missing route changes nothing, and when all routes are
loaded the registered one is dropped. -/
theorem run_consistent_mixed :
    rough.validate ≠ .ok ()
      ∧ mixedEnd.get? "m".toList = some rough
      ∧ (∃ op, lastPut? "m".toList (empty "routes".toList) mixed = some op ∧ op.AccountsFor rough)
      ∧ mixedEnd.get? "a".toList = some (twin .active)
      ∧ (twin .active).id = "a".toList
      ∧ ((Operation.refresh "b".toList).perform mixedEnd twins).registry = mixedEnd
      ∧ (mixedEnd.refresh twins " a".toList).registry.get? "m".toList = mixedEnd.get? "m".toList
      ∧ ∀ k, k ∈ (mixedEnd.refreshAll twins).registry.keys ↔
          ∃ extension, HasRoute twins "routes".toList k extension := by
  have hrough : mixedEnd.get? "m".toList = some rough := by decide +kernel
  have hactive : mixedEnd.get? "a".toList = some (twin .active) := by decide +kernel
  have hmissing : ((Operation.refresh "b".toList).perform mixedEnd twins).loaded.result
      = .error (.notFound "b".toList "routes".toList) := by decide +kernel
  have hother : "m".toList ≠ Text.trim " a".toList := by decide
  have hloaded : (loadAll twins mixedEnd.directory).result
      = .ok [twin .active, twin .passive] := by
    have hdirectory : mixedEnd.directory = "routes".toList := directory_run _ mixed
    rw [hdirectory, loadAll_twins]
  have hcount : (mixedEnd.refreshAll twins).loaded.result = .ok 2 := by
    rw [refreshAll_of_ok mixedEnd hloaded]
    rfl
  obtain ⟨hentries, hfailed, hsingle, hall⟩ := run_consistent "routes".toList mixed
  unfold mixedEnd at hrough hactive hmissing hcount ⊢
  exact ⟨by decide, hrough, (hentries _ _ hrough).2, hactive, (hentries _ _ hactive).1,
    hfailed _ _ _ hmissing, (hsingle _ _ _ hother).1, hall _ _ wellFormed_twins hcount⟩

end Registry

end Crosswalk.Catalog
