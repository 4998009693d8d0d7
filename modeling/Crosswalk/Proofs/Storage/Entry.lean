/-
  Crosswalk.Proofs.Storage.Entry
  ──────────────────────────────────────
  **ENTRIES OF A DIRECTORY.**

  A file name that is put together from a directory and the name of an entry
  leads nowhere but to that entry.  What is found under it (`entry?`) does
  not depend on anything else in the directory.

    • `parts_join`: the entry is one more part of the name,
    • `find_join_eq_ok`: what is found, and when,
    • `isFile_join`, `read_join`: files among the entries,
    • `splitExtension_eq_some`: stems and extensions of their names.
-/
import Crosswalk.Proofs.Text.Search
import Crosswalk.Storage.Disk

namespace Crosswalk.Storage

variable {directory name stem extension : Text}

/-! ## §1. Names of entries. -/

/-- A text that can be the name of an entry: one part of a file name that leads further down. -/
structure IsEntryName (name : Text) : Prop where
  ne_nil : name ≠ []
  flat : '/' ∉ name
  ne_here : name ≠ ['.']
  ne_parent : name ≠ parent

theorem IsEntryName.parts_eq (h : IsEntryName name) : parts name = [name] := by
  unfold parts
  rw [List.splitOn_eq_singleton h.flat]
  simp [h.ne_nil, h.ne_here]

/-- The name of an entry does not start at the root of all files. -/
theorem IsEntryName.isAbsolute_eq (h : IsEntryName name) : isAbsolute name = false := by
  unfold isAbsolute
  rw [beq_eq_false_iff_ne]
  intro hhead
  exact h.flat (List.mem_of_head? hhead)

theorem IsEntryName.getLast?_ne (h : IsEntryName name) : name.getLast? ≠ some '/' :=
  fun hlast => h.flat (List.mem_of_getLast? hlast)

/-- The parts of two names with a slash between them. -/
theorem parts_slash (directory name : Text) :
    parts (directory ++ '/' :: name) = parts directory ++ parts name := by
  unfold parts
  rw [List.splitOn_append_cons_self, List.filter_append]

/-- **An entry is one more part of the name of its directory.** -/
theorem parts_join (directory : Text) (h : IsEntryName name) :
    parts (join directory name) = parts directory ++ [name] := by
  unfold join
  rw [h.isAbsolute_eq, Bool.or_false]
  by_cases hempty : directory.isEmpty = true
  · rw [if_pos hempty, List.isEmpty_iff.mp hempty, h.parts_eq]
    rfl
  · rw [if_neg hempty]
    by_cases hslash : (directory.getLast? == some '/') = true
    · -- the slash is there already: the directory has an empty last part before the entry
      rw [if_pos hslash]
      obtain ⟨front, rfl⟩ := List.getLast?_eq_some_iff.mp (eq_of_beq hslash)
      rw [List.append_assoc, List.singleton_append, parts_slash, parts_slash, h.parts_eq]
      rw [show parts [] = [] from rfl, List.append_nil]
    · rw [if_neg hslash, parts_slash, h.parts_eq]

theorem getLast?_join (directory : Text) (h : IsEntryName name) :
    (join directory name).getLast? = name.getLast? := by
  obtain ⟨c, hc⟩ : ∃ c, name.getLast? = some c := by
    cases hlast : name.getLast? with
    | none => exact absurd (List.getLast?_eq_none_iff.mp hlast) h.ne_nil
    | some c => exact ⟨c, rfl⟩
  unfold join
  split
  · rfl
  · split
    · rw [List.getLast?_append, hc, Option.some_or]
    · rw [List.getLast?_append, List.getLast?_cons, hc, Option.some_or, Option.getD_some]

theorem join_ne_nil (directory : Text) (h : IsEntryName name) : join directory name ≠ [] := by
  intro hnil
  have hlast := getLast?_join directory h
  rw [hnil] at hlast
  exact h.ne_nil (List.getLast?_eq_none_iff.mp hlast.symm)

/-- A name with an entry starts where that of the directory starts. -/
theorem origin_join (directory : Text) (h : IsEntryName name) :
    Disk.origin (join directory name) = Disk.origin directory := by
  have habsolute : isAbsolute (join directory name) = isAbsolute directory := by
    cases directory with
    | nil => exact h.isAbsolute_eq
    | cons c directory =>
        unfold join
        rw [h.isAbsolute_eq]
        simp only [List.isEmpty_cons, Bool.or_false, Bool.false_eq_true, if_false]
        split <;> rfl
  unfold Disk.origin
  rw [habsolute]

theorem entryName?_join (directory : Text) (h : IsEntryName name) :
    entryName? (join directory name) = some name := by
  unfold entryName?
  rw [parts_join directory h, List.getLast?_concat]
  simp [Option.filter_some, h.ne_parent]

/-! ## §2. Stems and extensions. -/

/-- **A name has an extension exactly when it is a stem, a dot, and the extension.** -/
theorem splitExtension_eq_some :
    splitExtension name = (stem, some extension) ↔
      name = stem ++ '.' :: extension ∧ stem ≠ [] ∧ '.' ∉ extension := by
  -- the last dot of a name is the one behind which no other follows
  have hcut : ∀ {a b : Text}, '.' ∉ b → Text.cutLast? ['.'] (a ++ '.' :: b) = some (a, b) := by
    intro a b hb
    have hquiet : Text.Quiet (['.'] <+: ·) b.reverse (['.'] ++ a.reverse) :=
      Text.quiet_of_head (fun s ⟨t, ht⟩ => ⟨t, ht.symm⟩) (by simpa using hb)
    have hback : (a ++ '.' :: b).reverse = b.reverse ++ (['.'] ++ a.reverse) := by simp
    unfold Text.cutLast?
    rw [hback, List.reverse_singleton, Text.cutFirst?_of_quiet hquiet]
    simp
  constructor
  · intro h
    by_cases hdot : '.' ∈ name
    · obtain ⟨b, a, hname, hb⟩ := List.eq_append_cons_of_mem (List.mem_reverse.mpr hdot)
      have hname' : name = a.reverse ++ '.' :: b.reverse := by
        rw [← List.reverse_reverse name, hname]
        simp
      have hb' : '.' ∉ b.reverse := by simpa using hb
      unfold splitExtension at h
      rw [hname', hcut hb'] at h
      by_cases ha : a.reverse.isEmpty = true
      · simp [ha] at h
      · simp only [if_neg ha, Prod.mk.injEq, Option.some.injEq] at h
        obtain ⟨rfl, rfl⟩ := h
        exact ⟨hname', fun hnil => ha (by rw [hnil]; rfl), hb'⟩
    · have hnone : Text.cutLast? ['.'] name = none :=
        Text.cutLast?_eq_none fun hi => hdot (hi.subset (List.mem_singleton_self '.'))
      unfold splitExtension at h
      simp [hnone] at h
  · rintro ⟨rfl, hstem, hext⟩
    unfold splitExtension
    rw [hcut hext]
    simp [hstem]

/-- What a stem, a dot and an extension make can be the name of an entry. -/
theorem isEntryName_of_stem (hflat : '/' ∉ stem ++ '.' :: extension) (hstem : stem ≠ [])
    (hext : extension ≠ []) : IsEntryName (stem ++ '.' :: extension) := by
  have hlength : 3 ≤ (stem ++ '.' :: extension).length := by
    have hs := List.length_pos_iff.mpr hstem
    have he := List.length_pos_iff.mpr hext
    simp only [List.length_append, List.length_cons]
    omega
  refine ⟨?_, hflat, ?_, ?_⟩
  · intro h
    simp [h] at hlength
  · intro h
    simp [h] at hlength
  · intro h
    rw [h] at hlength
    exact absurd hlength (by decide)

/-! ## §3. What is found. -/

namespace Disk

variable {d : Disk} {node : Node}

/-- What stands in a directory under a name. -/
def entry? (d : Disk) (directory name : Text) : Option Node :=
  match d.walk (origin directory) (parts directory) with
  | .error _ => none
  | .ok place => if d.node? place = some .directory then d.node? (place ++ [name]) else none

/-- A way of one part more goes on where the way without it ends. -/
theorem walk_concat (d : Disk) (part : Text) : ∀ (parts : List Text) (here : Place),
    d.walk here (parts ++ [part]) =
      match d.walk here parts with
      | .error e => .error e
      | .ok place => d.walk place [part]
  | [], here => rfl
  | p :: parts, here => by
      rw [List.cons_append, walk, walk]
      cases d.node? here with
      | none => rfl
      | some n =>
          cases n with
          | file c => rfl
          | directory =>
              simp only
              split
              · rfl
              · exact walk_concat d part parts (enter here p)

theorem walk_entry (d : Disk) (h : IsEntryName name) (place next : Place) :
    d.walk place [name] = .ok next ↔
      d.node? place = some .directory ∧ Text.byteSize name ≤ longestPart
        ∧ next = place ++ [name] := by
  rw [walk]
  cases d.node? place with
  | none => simp
  | some n =>
      cases n with
      | file c => simp
      | directory =>
          by_cases hlong : longestPart < Text.byteSize name
          · simp [hlong, Nat.not_le_of_lt hlong]
          · simp [hlong, walk, enter, h.ne_parent, Nat.le_of_not_lt hlong, eq_comm]

/-- **A name with an entry is found exactly when the entry is there and its name is not too long.** -/
theorem find_join_eq_ok (directory : Text) (h : IsEntryName name) :
    d.find (join directory name) = .ok node ↔
      Text.byteSize name ≤ longestPart ∧ d.entry? directory name = some node := by
  have hlast : ((join directory name).getLast? == some '/') = false := by
    rw [getLast?_join directory h]
    exact beq_eq_false_iff_ne.mpr h.getLast?_ne
  have hempty : (join directory name).isEmpty = false :=
    List.isEmpty_eq_false_iff.mpr (join_ne_nil directory h)
  unfold find locate entry?
  rw [hlast, hempty, origin_join directory h, parts_join directory h, walk_concat]
  simp only [Bool.false_eq_true, if_false]
  cases hdir : d.walk (origin directory) (parts directory) with
  | error e => simp
  | ok place =>
      simp only
      cases hentry : d.walk place [name] with
      | error e =>
          -- the entry cannot be entered: its name is too long, or there is no directory
          simp only [reduceCtorEq, false_iff, not_and]
          intro hfits
          by_cases hd : d.node? place = some .directory
          · have := (walk_entry d h place (place ++ [name])).mpr ⟨hd, hfits, rfl⟩
            rw [hentry] at this
            exact absurd this (by simp)
          · simp [hd]
      | ok next =>
          obtain ⟨hd, hfits, rfl⟩ := (walk_entry d h place next).mp hentry
          simp only [hd, if_true, hfits, true_and]
          cases hn : d.node? (place ++ [name]) <;> simp [hn]

/-- The directory has a file of that name. -/
def HasFile (d : Disk) (directory name : Text) : Prop :=
  ∃ content, d.entry? directory name = some (.file content)

theorem isFile_join (d : Disk) (directory : Text) (h : IsEntryName name) :
    d.isFile (join directory name) = true ↔
      Text.byteSize name ≤ longestPart ∧ d.HasFile directory name := by
  have hfound : d.isFile (join directory name) = true ↔
      ∃ content, d.find (join directory name) = .ok (.file content) := by
    unfold isFile
    split
    · rename_i content hfind
      exact ⟨fun _ => ⟨content, hfind⟩, fun _ => rfl⟩
    · rename_i hnot
      refine ⟨fun hfalse => absurd hfalse (by simp), ?_⟩
      rintro ⟨content, hfind⟩
      exact absurd hfind (hnot content)
  rw [hfound]
  simp only [find_join_eq_ok directory h]
  exact ⟨fun ⟨content, hfits, hentry⟩ => ⟨hfits, content, hentry⟩,
    fun ⟨hfits, content, hentry⟩ => ⟨content, hfits, hentry⟩⟩

/-- **The text of a file depends on its entry alone.** -/
theorem read_join_congr {d' : Disk} (h : IsEntryName name)
    (hfile : d.isFile (join directory name) = true)
    (hsame : d.entry? directory name = d'.entry? directory name) :
    d.read (join directory name) = d'.read (join directory name) := by
  obtain ⟨hfits, content, hentry⟩ := (isFile_join d directory h).mp hfile
  have hfind : d.find (join directory name) = .ok (.file content) :=
    (find_join_eq_ok directory h).mpr ⟨hfits, hentry⟩
  have hfind' : d'.find (join directory name) = .ok (.file content) :=
    (find_join_eq_ok directory h).mpr ⟨hfits, hsame ▸ hentry⟩
  unfold read
  rw [hfind, hfind']

end Disk

end Crosswalk.Storage
