/-
  Crosswalk.Proofs.Catalog.Directory
  ──────────────────────────────────────
  **ALL ROUTES OF A DIRECTORY.**

  All routes of a directory are loaded from its route files, whatever the
  order is in which they are listed; the stem of a file is the id of its
  route.  A single route is loaded the other way, from an id to a file.  The
  two agree where a stem is looked up as it is (`IsPlainId`) and where no two
  files have the same stem (`NoTwins`).

    • `loadAll_eq_ok`, `exists_routeFiles`: the files that are loaded,
    • `mem_loadAll`, `nodup_ids_iff`: the routes, and their ids,
    • `load_id_eq_ok`: a route of the directory, loaded by its id,
    • `loadAll_agrees`: all routes, and a registry that keeps them.
-/
import Crosswalk.Proofs.Catalog.Registry
import Crosswalk.Proofs.Storage.WellFormed

namespace Crosswalk.Catalog

open Storage (Disk IsEntryName)

variable {d : Disk} {directory id extension name : Text} {r : Route} {routes : List Route}

/-! ## §1. Route files. -/

/-- The directory has a file for a route with the id. -/
def HasRoute (d : Disk) (directory id extension : Text) : Prop :=
  id ≠ [] ∧ extension ∈ extensions ∧ d.HasFile directory (id ++ '.' :: extension)

theorem dot_not_mem_extension (h : extension ∈ extensions) : '.' ∉ extension := by
  simp only [extensions, List.mem_cons, List.not_mem_nil, or_false] at h
  rcases h with rfl | rfl <;> decide

theorem HasRoute.isEntryName (h : HasRoute d directory id extension) (hd : d.WellFormed) :
    IsEntryName (id ++ '.' :: extension) :=
  (h.2.2.named hd).1

theorem HasRoute.splitExtension_eq (h : HasRoute d directory id extension) :
    Storage.splitExtension (id ++ '.' :: extension) = (id, some extension) :=
  Storage.splitExtension_eq_some.mpr ⟨rfl, h.1, dot_not_mem_extension h.2.1⟩

/-- A file for a route is found. -/
theorem isFile_iff_hasRoute (hd : d.WellFormed) (hid : isBadId id = false)
    (hext : extension ∈ extensions) :
    d.isFile (fileOf directory id extension) = true ↔ HasRoute d directory id extension := by
  show d.isFile (Storage.join _ _) = true ↔ _
  rw [hd.isFile_join directory (isEntryName_routeFile hid hext)]
  exact ⟨fun hfile => ⟨(isBadId_eq_false.mp hid).1, hext, hfile⟩, fun hroute => hroute.2.2⟩

/-- **An entry is taken for a route exactly when it is a file for one.** -/
theorem isRouteFile_join (hd : d.WellFormed) (hname : IsEntryName name) :
    isRouteFile d (Storage.join directory name) = true ↔
      ∃ id extension, name = id ++ '.' :: extension ∧ HasRoute d directory id extension := by
  unfold isRouteFile Storage.extension?
  rw [Storage.entryName?_join directory hname, Option.bind_some, Bool.and_eq_true,
    hd.isFile_join directory hname, Option.any_eq_true]
  constructor
  · rintro ⟨hfile, extension, hsplit, hext⟩
    have hname' : Storage.splitExtension name = ((Storage.splitExtension name).1, some extension) :=
      Prod.ext rfl hsplit
    obtain ⟨heq, hne, -⟩ := Storage.splitExtension_eq_some.mp hname'
    refine ⟨_, extension, heq, hne, by simpa using hext, ?_⟩
    rw [← heq]
    exact hfile
  · rintro ⟨id, extension, rfl, hroute⟩
    refine ⟨hroute.2.2, extension, ?_, by simpa using hroute.2.1⟩
    rw [hroute.splitExtension_eq]

/-- The route of a file has the stem of the file for its id. -/
theorem loadFile_of_hasRoute (hd : d.WellFormed) (h : HasRoute d directory id extension) :
    loadFile d (fileOf directory id extension) = loadAs d (fileOf directory id extension) id := by
  have hstem : Storage.stem? (fileOf directory id extension) = some id := by
    unfold Storage.stem? fileOf
    rw [Storage.entryName?_join directory (h.isEntryName hd), Option.map_some, h.splitExtension_eq]
  unfold loadFile
  rw [hstem]

/-! ## §2. All routes. -/

/-- The first file counts, then the others. -/
theorem result_loadFiles_cons (d : Disk) (file : Text) (files : List Text) :
    (loadFiles d (file :: files)).result =
      match (loadFile d file).result with
      | .error e => .error e
      | .ok r => (loadFiles d files).result.map (r :: ·) := by
  rw [loadFiles]
  cases (loadFile d file).result with
  | error e => rfl
  | ok r => rfl

/-- Files are loaded when each of them is. -/
theorem loadFiles_eq_ok : ∀ {files : List Text} {routes : List Route},
    (loadFiles d files).result = .ok routes ↔
      files.map (fun file => (loadFile d file).result) = routes.map .ok := by
  intro files
  induction files with
  | nil =>
      intro routes
      rw [loadFiles, List.map_nil, Except.ok.injEq]
      exact ⟨fun h => h ▸ rfl, fun h => (List.map_eq_nil_iff.mp h.symm).symm⟩
  | cons file files ih =>
      intro routes
      rw [result_loadFiles_cons, List.map_cons]
      cases (loadFile d file).result with
      | error e => cases routes with
        | nil => simp
        | cons r routes => simp
      | ok r => cases routes with
        | nil =>
            cases (loadFiles d files).result with
            | error e => simp [Except.map]
            | ok rest => simp [Except.map]
        | cons s routes =>
            rw [List.map_cons, List.cons.injEq, ← ih]
            cases (loadFiles d files).result with
            | error e => simp [Except.map]
            | ok rest => simp [Except.map]

/-- All routes are loaded when the directory can be listed, and each route file in it is loaded. -/
theorem loadAll_eq_ok :
    (loadAll d directory).result = .ok routes ↔
      ∃ listed rs, d.list directory = .ok listed
        ∧ (loadFiles d ((listed.map (Storage.join directory)).filter (isRouteFile d))).result = .ok rs
        ∧ sortById rs = routes := by
  unfold loadAll
  cases d.list directory with
  | error e => simp
  | ok listed =>
      simp only [Except.ok.injEq, exists_eq_left', exists_and_left]
      cases (loadFiles d ((listed.map (Storage.join directory)).filter (isRouteFile d))).result with
      | error e => simp [Except.map]
      | ok rs => simp [Except.map]

/-- **The routes of a directory are those of its route files**, each of which is loaded once. -/
theorem exists_routeFiles (hd : d.WellFormed) (h : (loadAll d directory).result = .ok routes) :
    ∃ (names : List Text) (rs : List Route), names.Nodup
      ∧ (∀ name, name ∈ names ↔
          ∃ id extension, name = id ++ '.' :: extension ∧ HasRoute d directory id extension)
      ∧ names.map (fun name => (loadFile d (Storage.join directory name)).result) = rs.map .ok
      ∧ rs.Perm routes := by
  obtain ⟨listed, rs, hlist, hload, hsort⟩ := loadAll_eq_ok.mp h
  refine ⟨listed.filter fun name => isRouteFile d (Storage.join directory name), rs,
    (Disk.nodup_list hd hlist).sublist List.filter_sublist, ?_, ?_,
    hsort ▸ (List.mergeSort_perm rs _).symm⟩
  · intro name
    rw [List.mem_filter]
    constructor
    · rintro ⟨hmem, hroute⟩
      exact (isRouteFile_join hd ((Disk.mem_list hd hlist).mp hmem).1).mp hroute
    · rintro ⟨id, extension, rfl, hhas⟩
      have hname := hhas.isEntryName hd
      refine ⟨(Disk.mem_list hd hlist).mpr ⟨hname, (hhas.2.2.named hd).2, ?_⟩,
        (isRouteFile_join hd hname).mpr ⟨id, extension, rfl, hhas⟩⟩
      obtain ⟨content, hentry⟩ := hhas.2.2
      rw [hentry]
      rfl
  · rw [List.filter_map] at hload
    have heach := loadFiles_eq_ok.mp hload
    rw [List.map_map] at heach
    exact heach

/-- All routes of a directory have passed their check. -/
theorem validate_of_loadAll (h : (loadAll d directory).result = .ok routes) (hr : r ∈ routes) :
    r.validate = .ok () := by
  obtain ⟨listed, rs, -, hload, rfl⟩ := loadAll_eq_ok.mp h
  have hmem : Except.ok r ∈ rs.map (Except.ok (ε := LoadError)) :=
    List.mem_map_of_mem (List.mem_mergeSort.mp hr)
  rw [← loadFiles_eq_ok.mp hload] at hmem
  obtain ⟨file, -, hresult⟩ := List.mem_map.mp hmem
  unfold loadFile at hresult
  split at hresult
  · exact validate_of_loadAs hresult
  · cases hresult

/-- **A route is among those of a directory exactly when one of its files holds it.** -/
theorem mem_loadAll (hd : d.WellFormed) (h : (loadAll d directory).result = .ok routes) :
    r ∈ routes ↔ ∃ extension, HasRoute d directory r.id extension
      ∧ (loadAs d (fileOf directory r.id extension) r.id).result = .ok r := by
  obtain ⟨names, rs, -, hnames, hload, hperm⟩ := exists_routeFiles hd h
  have hmem : r ∈ routes ↔
      Except.ok r ∈ names.map (fun name => (loadFile d (Storage.join directory name)).result) := by
    rw [← hperm.mem_iff, hload]
    simp
  rw [hmem, List.mem_map]
  constructor
  · rintro ⟨name, hname, hresult⟩
    obtain ⟨id, extension, rfl, hroute⟩ := (hnames name).mp hname
    have hloaded : (loadAs d (fileOf directory id extension) id).result = .ok r := by
      rw [← loadFile_of_hasRoute hd hroute]
      exact hresult
    obtain rfl := id_of_loadAs hloaded
    exact ⟨extension, hroute, hloaded⟩
  · rintro ⟨extension, hroute, hloaded⟩
    refine ⟨r.id ++ '.' :: extension, (hnames _).mpr ⟨r.id, extension, rfl, hroute⟩, ?_⟩
    rw [← loadFile_of_hasRoute hd hroute] at hloaded
    exact hloaded

/-- Each of the files gives one of the routes, with the stem of the file for its id. -/
theorem exists_of_loaded (hd : d.WellFormed) {names : List Text} {rs : List Route}
    (hload : names.map (fun name => (loadFile d (Storage.join directory name)).result) = rs.map .ok)
    (hname : id ++ '.' :: extension ∈ names) (hroute : HasRoute d directory id extension) :
    ∃ r ∈ rs, (loadFile d (fileOf directory id extension)).result = .ok r ∧ r.id = id := by
  have hmem : (loadFile d (fileOf directory id extension)).result ∈ rs.map Except.ok := by
    rw [← hload]
    exact List.mem_map_of_mem
      (f := fun name => (loadFile d (Storage.join directory name)).result) hname
  obtain ⟨r, hr, hresult⟩ := List.mem_map.mp hmem
  refine ⟨r, hr, hresult.symm, ?_⟩
  rw [loadFile_of_hasRoute hd hroute] at hresult
  exact id_of_loadAs hresult.symm

/-- Every route file gives one of the routes. -/
theorem exists_mem_loadAll (hd : d.WellFormed) (h : (loadAll d directory).result = .ok routes)
    (hroute : HasRoute d directory id extension) : id ∈ routes.map Route.id := by
  obtain ⟨names, rs, -, hnames, hload, hperm⟩ := exists_routeFiles hd h
  obtain ⟨r, hr, -, rfl⟩ :=
    exists_of_loaded hd hload ((hnames _).mpr ⟨id, extension, rfl, hroute⟩) hroute
  exact List.mem_map_of_mem (hperm.mem_iff.mp hr)

/-- **The ids of the routes are the stems of the route files.** -/
theorem mem_ids_iff (hd : d.WellFormed) (h : (loadAll d directory).result = .ok routes) :
    id ∈ routes.map Route.id ↔ ∃ extension, HasRoute d directory id extension := by
  constructor
  · intro hid
    obtain ⟨r, hr, rfl⟩ := List.mem_map.mp hid
    obtain ⟨extension, hroute, -⟩ := (mem_loadAll hd h).mp hr
    exact ⟨extension, hroute⟩
  · rintro ⟨extension, hroute⟩
    exact exists_mem_loadAll hd h hroute

/-! ## §3. Two files for one id. -/

/-- No two files of the directory have the same stem. -/
def NoTwins (d : Disk) (directory : Text) : Prop :=
  ∀ id, ¬ (HasRoute d directory id "yaml".toList ∧ HasRoute d directory id "yml".toList)

/-- Without twins a route has one file. -/
theorem NoTwins.extension_eq (htwins : NoTwins d directory) {e e' : Text}
    (h : HasRoute d directory id e) (h' : HasRoute d directory id e') : e = e' := by
  have he := h.2.1
  have he' := h'.2.1
  simp only [extensions, List.mem_cons, List.not_mem_nil, or_false] at he he'
  rcases he with rfl | rfl <;> rcases he' with rfl | rfl
  · rfl
  · exact absurd ⟨h, h'⟩ (htwins id)
  · exact absurd ⟨h', h⟩ (htwins id)
  · rfl

/-- **The ids of the routes differ exactly when the stems of the files do.** -/
theorem nodup_ids_iff (hd : d.WellFormed) (h : (loadAll d directory).result = .ok routes) :
    (routes.map Route.id).Nodup ↔ NoTwins d directory := by
  obtain ⟨names, rs, hnodup, hnames, hload, hperm⟩ := exists_routeFiles hd h
  have hids : rs.map Route.id = names.map (fun name => (Storage.splitExtension name).1) := by
    -- what a file is loaded as tells its id
    have hsame := congrArg (List.map fun result => (result.toOption.map Route.id).getD []) hload
    rw [List.map_map, List.map_map] at hsame
    refine hsame.symm.trans (List.map_congr_left ?_)
    intro name hname
    obtain ⟨id, extension, rfl, hroute⟩ := (hnames name).mp hname
    obtain ⟨r, -, hresult, hid⟩ := exists_of_loaded hd hload hname hroute
    rw [hroute.splitExtension_eq]
    show ((loadFile d (fileOf directory id extension)).result.toOption.map Route.id).getD [] = id
    rw [hresult, ← hid]
    rfl
  rw [← (hperm.map Route.id).nodup_iff, hids, List.nodup_map_iff_inj_on hnodup]
  constructor
  · intro hinj id htwin
    have hsame := hinj _ ((hnames _).mpr ⟨id, _, rfl, htwin.1⟩) _ ((hnames _).mpr ⟨id, _, rfl, htwin.2⟩)
      (by rw [htwin.1.splitExtension_eq, htwin.2.splitExtension_eq])
    exact absurd (List.append_cancel_left hsame) (by decide)
  · intro htwins x hx y hy hstem
    obtain ⟨id, e, rfl, hroute⟩ := (hnames x).mp hx
    obtain ⟨id', e', rfl, hroute'⟩ := (hnames y).mp hy
    rw [hroute.splitExtension_eq, hroute'.splitExtension_eq] at hstem
    obtain rfl : id = id' := hstem
    rw [htwins.extension_eq hroute hroute']

/-! ## §4. One route by its id. -/

/-- An id that is looked up as it is. -/
def IsPlainId (id : Text) : Prop :=
  Text.trim id = id ∧ isBadId id = false

/-- **A route of the directory is what its id loads exactly when the id is looked up as it is, and
the file that counts holds the route.** -/
theorem load_id_eq_ok (hd : d.WellFormed) (h : (loadAll d directory).result = .ok routes)
    (hr : r ∈ routes) :
    (load d directory r.id).result = .ok r ↔
      IsPlainId r.id ∧ (HasRoute d directory r.id "yaml".toList →
        (loadAs d (fileOf directory r.id "yaml".toList) r.id).result = .ok r) := by
  have hyaml : "yaml".toList ∈ extensions := List.mem_cons_self
  constructor
  · intro hload
    have htrim : Text.trim r.id = r.id := (id_of_load hload).symm
    obtain ⟨hplain, file, hfile, hresult⟩ := load_eq_ok.mp hload
    rw [htrim] at hplain hfile hresult
    refine ⟨⟨htrim, hplain⟩, fun hroute => ?_⟩
    rw [routeFile?_eq, if_pos ((isFile_iff_hasRoute hd hplain hyaml).mpr hroute)] at hfile
    rw [Option.some.inj hfile]
    exact hresult
  · rintro ⟨⟨htrim, hplain⟩, hfirst⟩
    apply load_eq_ok.mpr
    rw [htrim, routeFile?_eq]
    refine ⟨hplain, ?_⟩
    by_cases hroute : HasRoute d directory r.id "yaml".toList
    · exact ⟨_, if_pos ((isFile_iff_hasRoute hd hplain hyaml).mpr hroute), hfirst hroute⟩
    · -- the route is in the directory, so it has the other file
      obtain ⟨extension, hother, hresult⟩ := (mem_loadAll hd h).mp hr
      have hext := hother.2.1
      simp only [extensions, List.mem_cons, List.not_mem_nil, or_false] at hext
      rcases hext with rfl | rfl
      · exact absurd hother hroute
      · refine ⟨_, ?_, hresult⟩
        rw [if_neg fun hfile => hroute ((isFile_iff_hasRoute hd hplain hyaml).mp hfile),
          if_pos ((isFile_iff_hasRoute hd hplain (by simp [extensions])).mpr hother)]

/-! ## §5. A registry with all routes. -/

theorem refreshAll_of_error (g : Registry) {e : LoadError}
    (h : (loadAll d g.directory).result = .error e) :
    g.refreshAll d = ⟨g, ⟨(loadAll d g.directory).renamed, .error e⟩⟩ := by
  unfold Registry.refreshAll
  simp only [h]

theorem refreshAll_of_ok (g : Registry) (h : (loadAll d g.directory).result = .ok routes) :
    g.refreshAll d =
      ⟨(g.restrict ((routes.map Route.id).contains ·)).insertAll routes,
        ⟨(loadAll d g.directory).renamed, .ok (routes.map Route.id).length⟩⟩ := by
  unfold Registry.refreshAll
  simp only [h]

/-- **After all routes were loaded, the last route with an id is kept under it, and nothing else.** -/
theorem get?_refreshAll (g : Registry) (h : (loadAll d g.directory).result = .ok routes) (k : Text) :
    (g.refreshAll d).registry.get? k = Registry.lastOf routes k := by
  rw [refreshAll_of_ok g h, Registry.get?_insertAll, Registry.get?_restrict]
  cases hlast : Registry.lastOf routes k with
  | some r => rfl
  | none =>
      have hk := Registry.lastOf_eq_none.mp hlast
      have hnot : (routes.map Route.id).contains k = false := by
        rw [List.contains_eq_mem]
        exact decide_eq_false hk
      simp only [hnot, Bool.false_eq_true, if_false]
      rfl

theorem mem_keys_refreshAll (g : Registry) (h : (loadAll d g.directory).result = .ok routes)
    (k : Text) : k ∈ (g.refreshAll d).registry.keys ↔ k ∈ routes.map Route.id := by
  rw [Registry.mem_keys, get?_refreshAll g h, ← not_iff_not, ← Registry.lastOf_eq_none]
  simp

/-- **ALL ROUTES AND SINGLE ROUTES.**  When all routes of a directory can be loaded, whatever is in it
and in whatever order:

  • their ids differ exactly when no two files have the same stem,
  • a route is what its id loads exactly when the id is looked up as it is, and the file that counts
    holds the route,
  • a registry that loads them reports their number; that is the number of routes it keeps exactly
    when no two files have the same stem, and besides each of those is what its id loads exactly when
    all ids are looked up as they are. -/
theorem loadAll_agrees (hd : d.WellFormed) (h : (loadAll d directory).result = .ok routes) :
    ((routes.map Route.id).Nodup ↔ NoTwins d directory)
    ∧ (∀ r ∈ routes, (load d directory r.id).result = .ok r ↔
        IsPlainId r.id ∧ (HasRoute d directory r.id "yaml".toList →
          (loadAs d (fileOf directory r.id "yaml".toList) r.id).result = .ok r))
    ∧ ∀ g : Registry, g.directory = directory →
        (g.refreshAll d).loaded.result = .ok routes.length
        ∧ ((g.refreshAll d).registry.size = routes.length ↔ NoTwins d directory)
        ∧ (((g.refreshAll d).registry.size = routes.length
              ∧ ∀ k r, (g.refreshAll d).registry.get? k = some r →
                  (load d directory k).result = .ok r)
            ↔ NoTwins d directory ∧ ∀ r ∈ routes, IsPlainId r.id) := by
  have hdistinct := nodup_ids_iff hd h
  refine ⟨hdistinct, fun r hr => load_id_eq_ok hd h hr, ?_⟩
  rintro g rfl
  have hsize : (g.refreshAll d).registry.size = routes.length ↔ NoTwins d g.directory := by
    rw [← hdistinct, ← Registry.size_eq_iff (mem_keys_refreshAll g h), List.length_map]
  refine ⟨?_, hsize, ?_⟩
  · rw [refreshAll_of_ok g h, List.length_map]
  · rw [hsize]
    refine and_congr_right fun htwins => ?_
    constructor
    · intro hkept r hr
      have hlast := Registry.lastOf_of_mem (hdistinct.mpr htwins) hr
      have hload := hkept r.id r ((get?_refreshAll g h r.id).trans hlast)
      exact ((load_id_eq_ok hd h hr).mp hload).1
    · intro hplain k r hget
      rw [get?_refreshAll g h] at hget
      obtain ⟨hr, rfl⟩ := Registry.lastOf_eq_some hget
      refine (load_id_eq_ok hd h hr).mpr ⟨hplain r hr, fun hroute => ?_⟩
      -- without twins the file that counts is the one that the route came from
      obtain ⟨extension, hfile, hresult⟩ := (mem_loadAll hd h).mp hr
      rw [htwins.extension_eq hroute hfile]
      exact hresult

/-- A directory with two files for one id. -/
def twins : Disk :=
  ⟨[(["routes".toList, "a.yaml".toList], .file (.text "mode: ACTIVE".toList)),
    (["routes".toList, "a.yml".toList], .file (.text "mode: PASSIVE".toList)),
    (["routes".toList], .directory)]⟩

/-- The route of one of the files. -/
def twin (mode : Mode) : Route :=
  { Route.empty with id := "a".toList, mode := some mode }

theorem wellFormed_twins : twins.WellFormed := by
  refine ⟨by decide, ?_⟩
  intro place hplace
  have hcases : place = ["routes".toList] ++ ["a.yaml".toList]
      ∨ place = ["routes".toList] ++ ["a.yml".toList] ∨ place = [] ++ ["routes".toList] := by
    simpa [twins, Disk.places] using hplace
  rcases hcases with rfl | rfl | rfl
  · exact ⟨_, _, rfl, ⟨by decide, by decide, by decide, by decide⟩, by decide⟩
  · exact ⟨_, _, rfl, ⟨by decide, by decide, by decide, by decide⟩, by decide⟩
  · exact ⟨_, _, rfl, ⟨by decide, by decide, by decide, by decide⟩, by decide⟩

theorem loadAll_twins :
    (loadAll twins "routes".toList).result = .ok [twin .active, twin .passive] := by
  have hlist : twins.list "routes".toList = .ok ["a.yaml".toList, "a.yml".toList] := by
    decide +kernel
  have hfiles : (loadFiles twins ((["a.yaml".toList, "a.yml".toList].map
      (Storage.join "routes".toList)).filter (isRouteFile twins))).result
        = .ok [twin .active, twin .passive] := by
    decide +kernel
  have hsorted : sortById [twin .active, twin .passive] = [twin .active, twin .passive] :=
    List.mergeSort_of_pairwise (by simp [twin])
  exact loadAll_eq_ok.mpr ⟨_, _, hlist, hfiles, hsorted⟩

/-- Two routes are loaded under one id, and a registry that keeps one of them reports two. -/
theorem loadAll_agrees_twins :
    (loadAll twins "routes".toList).result = .ok [twin .active, twin .passive]
      ∧ ¬ NoTwins twins "routes".toList
      ∧ (load twins "routes".toList (twin .active).id).result = .ok (twin .active)
      ∧ (load twins "routes".toList (twin .active).id).result ≠ .ok (twin .passive)
      ∧ ((Registry.empty "routes".toList).refreshAll twins).loaded.result = .ok 2
      ∧ ((Registry.empty "routes".toList).refreshAll twins).registry.size ≠ 2 := by
  have hfirst : (loadAs twins (fileOf "routes".toList (twin .active).id "yaml".toList)
      (twin .active).id).result = .ok (twin .active) := by
    decide +kernel
  obtain ⟨hdistinct, hsingle, hregistry⟩ := loadAll_agrees wellFormed_twins loadAll_twins
  obtain ⟨hcount, hsize, -⟩ := hregistry (Registry.empty "routes".toList) rfl
  have htwins : ¬ NoTwins twins "routes".toList := fun hno =>
    absurd (hdistinct.mpr hno) (by decide)
  have hplain : IsPlainId (twin .active).id := ⟨by decide, by decide⟩
  have hactive : (load twins "routes".toList (twin .active).id).result = .ok (twin .active) :=
    (hsingle (twin .active) List.mem_cons_self).mpr ⟨hplain, fun _ => hfirst⟩
  refine ⟨loadAll_twins, htwins, hactive, ?_, hcount, fun htwo => htwins (hsize.mp htwo)⟩
  rw [hactive]
  decide

end Crosswalk.Catalog
