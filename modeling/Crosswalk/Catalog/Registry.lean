/-
  Crosswalk.Catalog.Registry
  ──────────────────────────────────────
  **ROUTES THAT STAY LOADED.**

  A registry keeps the routes of a directory, each under the id that it had
  when it came in, and one under every id.  What is loaded is not looked up
  again until it is refreshed or evicted; an operation that fails changes
  nothing.
-/
import Crosswalk.Catalog.Loader

namespace Crosswalk.Catalog

open Storage (Disk)

/-- The loaded routes of a directory by the ids that they are kept under, the newest first. -/
structure Registry where
  directory : Text
  entries : List (Text × Route)
  /-- There is one route under an id. -/
  distinct : (entries.map Prod.fst).Nodup
  deriving Repr

/-- The registry after an operation, and what the operation gave. -/
structure Step (α : Type) where
  registry : Registry
  loaded : Loaded α

namespace Registry

/-! ## §1. Entries. -/

/-- Nothing loaded. -/
def empty (directory : Text) : Registry :=
  ⟨directory, [], List.nodup_nil⟩

/-- The route that is kept under an id. -/
def get? (g : Registry) (id : Text) : Option Route :=
  (g.entries.find? (·.1 = id)).map (·.2)

/-- Keeps nothing but the routes under some ids. -/
def restrict (g : Registry) (keeps : Text → Bool) : Registry where
  directory := g.directory
  entries := g.entries.filter (fun e => keeps e.1)
  distinct := g.distinct.sublist (List.filter_sublist.map Prod.fst)

/-- Removes the route under an id. -/
def erase (g : Registry) (id : Text) : Registry :=
  g.restrict (· ≠ id)

/-- Nothing is left under an id that was erased. -/
theorem not_mem_erase (g : Registry) (id : Text) : id ∉ (g.erase id).entries.map Prod.fst := by
  intro h
  obtain ⟨e, he, hid⟩ := List.mem_map.mp h
  have hne := (List.mem_filter.mp he).2
  simp [hid] at hne

/-- Keeps a route under its id, in place of the one that is there. -/
def insert (g : Registry) (r : Route) : Registry where
  directory := g.directory
  entries := (r.id, r) :: (g.erase r.id).entries
  distinct := List.nodup_cons.mpr ⟨g.not_mem_erase r.id, (g.erase r.id).distinct⟩

/-- Keeps the routes one after the other. -/
def insertAll (g : Registry) (routes : List Route) : Registry :=
  routes.foldl insert g

/-- The number of loaded routes. -/
def size (g : Registry) : Nat :=
  g.entries.length

/-- The ids of the loaded routes, sorted. -/
def ids (g : Registry) : List Text :=
  (g.entries.map Prod.fst).mergeSort (fun a b => !decide (b < a))

/-! ## §2. Loading. -/

/-- Loads a route and keeps it. -/
def refresh (g : Registry) (d : Disk) (id : Text) : Step Route :=
  let loaded := load d g.directory id
  match loaded.result with
  | .error _ => ⟨g, loaded⟩
  | .ok r => ⟨g.insert r, loaded⟩

/-- The loaded route with an id; loads it when there is none. -/
def getOrLoad (g : Registry) (d : Disk) (id : Text) : Step Route :=
  match g.get? id with
  | some r => ⟨g, ⟨[], .ok r⟩⟩
  | none => g.refresh d id

/-- Loads all routes of the directory and keeps no others; gives their number. -/
def refreshAll (g : Registry) (d : Disk) : Step Nat :=
  let loaded := loadAll d g.directory
  match loaded.result with
  | .error e => ⟨g, ⟨loaded.renamed, .error e⟩⟩
  | .ok routes =>
    let ids := routes.map Route.id
    ⟨(g.restrict (ids.contains ·)).insertAll routes, ⟨loaded.renamed, .ok ids.length⟩⟩

end Registry

end Crosswalk.Catalog
