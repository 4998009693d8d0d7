/-
  Crosswalk.Proofs.Catalog.Loader
  ──────────────────────────────────────
  **WHAT IS LOADED, AND FROM WHERE.**

  A route that is loaded has the id that it was asked for, without the white
  space around it, and has passed its check.  It comes from one of the two
  files that are entries of the directory under that id; nothing else on a
  disk can show in it (`load_congr`).

    • `loadAs_eq_ok`: a route from a file,
    • `load_eq_ok`: a route from a directory,
    • `load_congr`: the entries that it depends on.
-/
import Crosswalk.Catalog.Loader
import Crosswalk.Proofs.Storage.Entry

namespace Crosswalk.Catalog

open Storage (Disk IsEntryName)

variable {d d' : Disk} {directory file id extension : Text} {r : Route}

/-! ## §1. Routes from files. -/

/-- **A route from a file is what the file says, with the given id, when it passes its check.** -/
theorem loadAs_eq_ok :
    (loadAs d file id).result = .ok r ↔
      ∃ content declared, d.read file = .ok content ∧ Route.read content = .ok declared
        ∧ r = { declared with id := id } ∧ r.validate = .ok () := by
  unfold loadAs settleId
  constructor
  · intro h
    split at h
    · cases h
    · rename_i content hcontent
      split at h
      · cases h
      · rename_i declared hdeclared
        simp only at h
        split at h
        · cases h
        · rename_i hvalid
          obtain rfl := Except.ok.inj h
          exact ⟨content, declared, hcontent, hdeclared, rfl, hvalid⟩
  · rintro ⟨content, declared, hcontent, hdeclared, rfl, hvalid⟩
    rw [hcontent]
    simp only [hdeclared, hvalid]

theorem id_of_loadAs (h : (loadAs d file id).result = .ok r) : r.id = id := by
  obtain ⟨content, declared, -, -, rfl, -⟩ := loadAs_eq_ok.mp h
  rfl

theorem validate_of_loadAs (h : (loadAs d file id).result = .ok r) : r.validate = .ok () := by
  obtain ⟨content, declared, -, -, -, hvalid⟩ := loadAs_eq_ok.mp h
  exact hvalid

theorem loadAs_congr (h : d.read file = d'.read file) : loadAs d file id = loadAs d' file id := by
  unfold loadAs
  rw [h]

/-! ## §2. Ids. -/

theorem isBadId_eq_false :
    isBadId id = false ↔
      id ≠ [] ∧ '/' ∉ id ∧ '\\' ∉ id ∧ id ≠ ['.'] ∧ id ≠ Storage.parent := by
  unfold isBadId
  simp [Bool.or_eq_false_iff, and_assoc]

/-- The file of a route is an entry of its directory. -/
theorem isEntryName_routeFile (hid : isBadId id = false) (hext : extension ∈ extensions) :
    IsEntryName (id ++ '.' :: extension) := by
  obtain ⟨hne, hflat, -⟩ := isBadId_eq_false.mp hid
  have hplain : '/' ∉ '.' :: extension ∧ extension ≠ [] := by
    simp only [extensions, List.mem_cons, List.not_mem_nil, or_false] at hext
    rcases hext with rfl | rfl <;> decide
  refine Storage.isEntryName_of_stem ?_ hne hplain.2
  intro h
  exact (List.mem_append.mp h).elim hflat hplain.1

/-! ## §3. Routes from a directory. -/

/-- The file that a route is loaded from: the first one that is there. -/
def routeFile? (d : Disk) (directory id : Text) : Option Text :=
  (extensions.map (fileOf directory id)).find? d.isFile

theorem load_of_bad (d : Disk) (directory : Text) (h : isBadId (Text.trim id) = true) :
    load d directory id = ⟨[], .error (.badId (Text.trim id))⟩ := by
  unfold load
  exact if_pos h

theorem load_of_plain (d : Disk) (directory : Text) (h : isBadId (Text.trim id) = false) :
    load d directory id =
      match routeFile? d directory (Text.trim id) with
      | some file => loadAs d file (Text.trim id)
      | none => ⟨[], .error (.notFound (Text.trim id) directory)⟩ := by
  unfold load
  simp only [h, Bool.false_eq_true, if_false]
  rfl

/-- **A route is loaded from the first of its files.** -/
theorem load_eq_ok :
    (load d directory id).result = .ok r ↔
      isBadId (Text.trim id) = false ∧ ∃ file, routeFile? d directory (Text.trim id) = some file
        ∧ (loadAs d file (Text.trim id)).result = .ok r := by
  cases hbad : isBadId (Text.trim id) with
  | true => simp [load_of_bad d directory hbad]
  | false =>
      rw [load_of_plain d directory hbad]
      cases routeFile? d directory (Text.trim id) with
      | none => simp
      | some file => simp

/-- A loaded route has the id without the white space around it. -/
theorem id_of_load (h : (load d directory id).result = .ok r) : r.id = Text.trim id := by
  obtain ⟨-, file, -, hload⟩ := load_eq_ok.mp h
  exact id_of_loadAs hload

theorem validate_of_load (h : (load d directory id).result = .ok r) : r.validate = .ok () := by
  obtain ⟨-, file, -, hload⟩ := load_eq_ok.mp h
  exact validate_of_loadAs hload

/-- The file with the first extension counts before the other. -/
theorem routeFile?_eq (d : Disk) (directory id : Text) :
    routeFile? d directory id =
      if d.isFile (fileOf directory id "yaml".toList) then some (fileOf directory id "yaml".toList)
      else if d.isFile (fileOf directory id "yml".toList) then some (fileOf directory id "yml".toList)
      else none := by
  unfold routeFile? extensions
  rw [List.map_cons, List.map_cons, List.map_nil, List.find?_cons, List.find?_cons, List.find?_nil]
  cases d.isFile (fileOf directory id "yaml".toList) with
  | true => simp
  | false =>
      cases d.isFile (fileOf directory id "yml".toList) with
      | true => simp
      | false => simp

/-! ## §4. What a route depends on. -/

/-- The disks have the same under the names of the files of a route. -/
def SameEntries (d d' : Disk) (directory id : Text) : Prop :=
  ∀ extension ∈ extensions,
    d.entry? directory (id ++ '.' :: extension) = d'.entry? directory (id ++ '.' :: extension)

/-- **A loaded route depends on the two entries under its id alone**, and so do all errors and
reports of loading. -/
theorem load_congr (h : SameEntries d d' directory (Text.trim id)) :
    load d directory id = load d' directory id := by
  cases hbad : isBadId (Text.trim id) with
  | true => rw [load_of_bad d directory hbad, load_of_bad d' directory hbad]
  | false =>
      have hfile : ∀ file ∈ extensions.map (fileOf directory (Text.trim id)),
          d.isFile file = d'.isFile file ∧
            (d.isFile file = true → d.read file = d'.read file) := by
        intro file hmem
        obtain ⟨extension, hext, rfl⟩ := List.mem_map.mp hmem
        have hname := isEntryName_routeFile hbad hext
        have hsame := h extension hext
        refine ⟨?_, fun hthere => Disk.read_join_congr hname hthere hsame⟩
        rw [Bool.eq_iff_iff]
        show d.isFile (Storage.join _ _) = true ↔ d'.isFile (Storage.join _ _) = true
        rw [Disk.isFile_join d directory hname, Disk.isFile_join d' directory hname]
        unfold Disk.HasFile
        rw [hsame]
      have hfound : routeFile? d directory (Text.trim id) = routeFile? d' directory (Text.trim id) := by
        unfold routeFile?
        rw [← List.head?_filter, ← List.head?_filter,
          List.filter_congr fun file hmem => (hfile file hmem).1]
      rw [load_of_plain d directory hbad, load_of_plain d' directory hbad, ← hfound]
      cases hroute : routeFile? d directory (Text.trim id) with
      | none => rfl
      | some file =>
          have hmem := List.mem_of_find?_eq_some hroute
          exact loadAs_congr ((hfile file hmem).2 (List.find?_some hroute))

end Crosswalk.Catalog
