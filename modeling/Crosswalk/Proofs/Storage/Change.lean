/-
  Crosswalk.Proofs.Storage.Change
  ──────────────────────────────────────
  **WHAT A CHANGE OF A DISK CHANGES.**

  A file that is put somewhere is there, and all other places are as they
  were.  Names lead where they led as long as the directories stay the same.
  Made directories stand where nothing stood, and nothing else changes.

    • `node?_put`: one place after a change,
    • `walk_mono`, `directoryPlace?_mono`: where names lead,
    • `write_join`, `overwrite_join`, `read_join`: files among the entries of
      a directory,
    • `grown_makeDirectory`, `directoryPlace?_makeDirectory`: made directories.
-/
import Crosswalk.Proofs.Storage.WellFormed
import Crosswalk.Proofs.Text.Position

namespace Crosswalk.Storage

/-! ## §1. What a file holds. -/

namespace Content

/-- A text over an empty file is all that the file holds. -/
theorem overlay_empty (s : Text) : (text []).overlay s = text s := by
  have hnone : ((text []).toBytes.drop (Text.byteSize s)).isEmpty = true := by
    show (([] : List UInt8).drop (Text.byteSize s)).isEmpty = true
    rw [List.drop_nil]
    rfl
  unfold overlay
  exact if_pos hnone

/-- A text over a file that holds it changes nothing. -/
theorem overlay_self (s : Text) : (text s).overlay s = text s := by
  have hnone : ((text s).toBytes.drop (Text.byteSize s)).isEmpty = true := by
    rw [← Text.length_bytes s]
    show ((Text.bytes s).drop (Text.bytes s).length).isEmpty = true
    rw [List.drop_length]
    rfl
  unfold overlay
  exact if_pos hnone

end Content

namespace Disk

variable {d d' : Disk} {directory name s : Text} {place q : Place} {node : Node}
  {content : Content}

/-! ## §2. One place. -/

/-- **What is put at a place is there, and every other place is as it was.** -/
theorem node?_put (hbase : isBase place = false) (d : Disk) (node : Node) (q : Place) :
    (d.put place node).node? q = if q = place then some node else d.node? q := by
  by_cases hq : isBase q = true
  · have hne : q ≠ place := by
      intro heq
      rw [heq, hbase] at hq
      cases hq
    rw [if_neg hne]
    unfold node?
    rw [if_pos hq, if_pos hq]
  · have hlook : ∀ e : Disk, e.node? q = (e.entries.find? (·.1 = q)).map (·.2) := fun e => if_neg hq
    rw [hlook]
    unfold put
    split
    · -- something was there: its entry alone is another one
      rename_i hthere
      rw [List.find?_map]
      have hsame : ((fun e : Place × Node => decide (e.1 = q))
          ∘ fun e => if e.1 = place then (place, node) else e) = fun e => decide (e.1 = q) := by
        funext e
        by_cases he : e.1 = place
        · simp [he]
        · simp [he]
      rw [hsame]
      by_cases heq : q = place
      · subst heq
        rw [if_pos rfl]
        rw [hlook] at hthere
        obtain ⟨found, hfound⟩ := Option.isSome_iff_exists.mp hthere
        obtain ⟨e, he, -⟩ := Option.map_eq_some_iff.mp hfound
        have hplace : e.1 = q := by simpa using List.find?_some he
        rw [he]
        simp [hplace]
      · rw [if_neg heq, hlook]
        cases hfind : d.entries.find? (fun e => decide (e.1 = q)) with
        | none => rfl
        | some e =>
            have hplace : e.1 = q := by simpa using List.find?_some hfind
            simp [hplace, heq]
    · rw [List.find?_cons]
      by_cases heq : q = place
      · simp [heq]
      · rw [if_neg heq, hlook]
        simp [Ne.symm heq]

/-! ## §3. Disks with the same directories. -/

/-- A name leads on a disk where it leads on another one, when all directories are there. -/
theorem walk_mono (h : ∀ q, d.node? q = some .directory → d'.node? q = some .directory) :
    ∀ {ps : List Text} {here : Place}, d.walk here ps = .ok place → d'.walk here ps = .ok place
  | [], here, hwalk => hwalk
  | p :: ps, here, hwalk => by
      rw [walk] at hwalk ⊢
      split at hwalk
      · cases hwalk
      · cases hwalk
      · rename_i hnode
        rw [h here hnode]
        simp only
        split at hwalk
        · cases hwalk
        · rename_i hfits
          rw [if_neg hfits]
          exact walk_mono h hwalk

/-- The directory that a name leads to. -/
def directoryPlace? (d : Disk) (directory : Text) : Option Place :=
  match d.walk (origin directory) (parts directory) with
  | .error _ => none
  | .ok place => if d.node? place = some .directory then some place else none

theorem directoryPlace?_eq_some :
    d.directoryPlace? directory = some place ↔
      d.walk (origin directory) (parts directory) = .ok place
        ∧ d.node? place = some .directory := by
  unfold directoryPlace?
  constructor
  · intro h
    split at h
    · cases h
    · rename_i there hwalk
      split at h
      · rename_i hnode
        obtain rfl := Option.some.inj h
        exact ⟨hwalk, hnode⟩
      · cases h
  · intro ⟨hwalk, hnode⟩
    rw [hwalk]
    exact if_pos hnode

/-- An entry is what stands below the place of its directory. -/
theorem entry?_eq (h : d.directoryPlace? directory = some place) (name : Text) :
    d.entry? directory name = d.node? (place ++ [name]) := by
  obtain ⟨hwalk, hnode⟩ := directoryPlace?_eq_some.mp h
  unfold entry?
  rw [hwalk]
  exact if_pos hnode

theorem directoryPlace?_of_entry (h : d.entry? directory name = some node) :
    ∃ place, d.directoryPlace? directory = some place := by
  unfold entry? at h
  split at h
  · cases h
  · rename_i place hwalk
    split at h
    · rename_i hnode
      exact ⟨place, directoryPlace?_eq_some.mpr ⟨hwalk, hnode⟩⟩
    · cases h

theorem directoryPlace?_mono (h : ∀ q, d.node? q = some .directory → d'.node? q = some .directory)
    (hplace : d.directoryPlace? directory = some place) :
    d'.directoryPlace? directory = some place := by
  obtain ⟨hwalk, hnode⟩ := directoryPlace?_eq_some.mp hplace
  exact directoryPlace?_eq_some.mpr ⟨walk_mono h hwalk, h place hnode⟩

/-- A directory that can be listed is there. -/
theorem directoryPlace?_of_list {names : List Text} (h : d.list directory = .ok names) :
    ∃ place, d.directoryPlace? directory = some place := by
  obtain ⟨place, hwalk, hnode, -⟩ := list_eq_ok h
  exact ⟨place, directoryPlace?_eq_some.mpr ⟨hwalk, hnode⟩⟩

/-! ## §4. Files among the entries of a directory. -/

/-- **The name of an entry leads below the place of its directory**, unless it is too long. -/
theorem locate_join (hplace : d.directoryPlace? directory = some place) (h : IsEntryName name) :
    d.locate (join directory name) =
      if longestPart < Text.byteSize name then .error .nameTooLong else .ok (place ++ [name]) := by
  obtain ⟨hwalk, hnode⟩ := directoryPlace?_eq_some.mp hplace
  have hempty : (join directory name).isEmpty = false :=
    List.isEmpty_eq_false_iff.mpr (join_ne_nil directory h)
  have hlast : ((join directory name).getLast? == some '/') = false := by
    rw [getLast?_join directory h]
    exact beq_eq_false_iff_ne.mpr h.getLast?_ne
  have hentry : d.walk place [name] =
      if longestPart < Text.byteSize name then .error .nameTooLong else .ok (place ++ [name]) := by
    rw [walk, hnode]
    simp only [walk, enter, if_neg h.ne_parent]
  unfold locate
  rw [hempty, hlast, origin_join directory h, parts_join directory h, walk_concat, hwalk]
  simp only [Bool.false_eq_true, if_false]
  rw [hentry]
  by_cases hlong : longestPart < Text.byteSize name
  · rw [if_pos hlong]
  · rw [if_neg hlong]
    cases hfound : d.node? (place ++ [name]) with
    | none => simp [hfound]
    | some found => cases found <;> simp [hfound]

/-- **What becomes of a file that is written among the entries of a directory.** -/
theorem write_join (hplace : d.directoryPlace? directory = some place) (h : IsEntryName name)
    (content : Content) :
    d.write (join directory name) content =
      if longestPart < Text.byteSize name then .error .nameTooLong
      else if d.node? (place ++ [name]) = some .directory then .error .isDirectory
      else .ok (d.put (place ++ [name]) (.file content)) := by
  have hlast : ((join directory name).getLast? == some '/') = false := by
    rw [getLast?_join directory h]
    exact beq_eq_false_iff_ne.mpr h.getLast?_ne
  unfold write
  rw [locate_join hplace h, hlast]
  by_cases hlong : longestPart < Text.byteSize name
  · rw [if_pos hlong, if_pos hlong]
  · rw [if_neg hlong, if_neg hlong]
    simp only [List.dropLast_concat, (directoryPlace?_eq_some.mp hplace).2]
    cases hfound : d.node? (place ++ [name]) with
    | none => simp
    | some found => cases found <;> simp

/-- A text that is written into an open file of a directory changes that file. -/
theorem overwrite_join (hplace : d.directoryPlace? directory = some place) (h : IsEntryName name)
    (hfits : Text.byteSize name ≤ longestPart)
    (hfile : d.node? (place ++ [name]) = some (.file content)) :
    d.overwrite (join directory name) s =
      d.put (place ++ [name]) (.file (content.overlay s)) := by
  unfold overwrite
  rw [locate_join hplace h, if_neg (Nat.not_lt.mpr hfits)]
  simp only [hfile]

/-- The text of a file of a directory is read under its name. -/
theorem read_join (hplace : d.directoryPlace? directory = some place) (h : IsEntryName name)
    (hfits : Text.byteSize name ≤ longestPart)
    (hfile : d.node? (place ++ [name]) = some (.file (.text s))) :
    d.read (join directory name) = .ok s := by
  have hfind : d.find (join directory name) = .ok (.file (.text s)) :=
    (find_join_eq_ok directory h).mpr ⟨hfits, entry?_eq hplace name ▸ hfile⟩
  unfold read
  rw [hfind]

/-! ## §5. Made directories. -/

/-- A disk with more directories, each where nothing stood. -/
def Grown (d d' : Disk) : Prop :=
  ∀ q, d'.node? q = d.node? q ∨ (d.node? q = none ∧ d'.node? q = some .directory)

theorem Grown.refl (d : Disk) : d.Grown d :=
  fun _ => .inl rfl

theorem Grown.trans {d'' : Disk} (h : d.Grown d') (h' : d'.Grown d'') : d.Grown d'' := by
  intro q
  obtain hsame | ⟨hnone, hnew⟩ := h q
  · obtain hsame' | ⟨hnone', hnew'⟩ := h' q
    · exact .inl (hsame'.trans hsame)
    · exact .inr ⟨hsame ▸ hnone', hnew'⟩
  · obtain hsame' | ⟨hnone', -⟩ := h' q
    · exact .inr ⟨hnone, hsame'.trans hnew⟩
    · rw [hnew] at hnone'
      cases hnone'

/-- Directories stay what they are. -/
theorem Grown.keeps_directory (h : d.Grown d') (hq : d.node? q = some .directory) :
    d'.node? q = some .directory := by
  obtain hsame | ⟨hnone, hnew⟩ := h q
  · exact hsame.trans hq
  · exact hnew

/-- Files are those that were there. -/
theorem Grown.file_iff (h : d.Grown d') :
    d'.node? q = some (.file content) ↔ d.node? q = some (.file content) := by
  obtain hsame | ⟨hnone, hnew⟩ := h q
  · rw [hsame]
  · simp [hnone, hnew]

/-- A directory where nothing stood. -/
theorem grown_put (hnone : d.node? place = none) : d.Grown (d.put place .directory) := by
  intro q
  rw [node?_put (node?_eq_none.mp hnone).1]
  by_cases hq : q = place
  · exact .inr ⟨hq ▸ hnone, if_pos hq⟩
  · exact .inl (if_neg hq)

theorem grown_makeAlong : ∀ {ps : List Text} {d : Disk} {here : Place} {made : Disk},
    d.makeAlong here ps = .ok made → d.Grown made
  | [], d, here, made, h => by
      rw [makeAlong] at h
      obtain rfl := Except.ok.inj h
      exact Grown.refl d
  | p :: ps, d, here, made, h => by
      rw [makeAlong] at h
      split at h
      · cases h
      · cases hnode : d.node? (enter here p) with
        | none =>
            simp only [hnode] at h
            exact (grown_put hnode).trans (grown_makeAlong h)
        | some node =>
            cases node with
            | file content =>
                simp only [hnode] at h
                cases h
            | directory =>
                simp only [hnode] at h
                exact grown_makeAlong h

/-- **Made directories stand where nothing stood.** -/
theorem grown_makeDirectory {made : Disk} (h : d.makeDirectory name = .ok made) : d.Grown made :=
  grown_makeAlong h

/-- The way along which directories were made ends at a directory. -/
theorem walk_makeAlong : ∀ {ps : List Text} {d : Disk} {here : Place} {made : Disk},
    d.node? here = some .directory → d.makeAlong here ps = .ok made →
      ∃ place, made.walk here ps = .ok place ∧ made.node? place = some .directory
  | [], d, here, made, hhere, h => by
      rw [makeAlong] at h
      obtain rfl := Except.ok.inj h
      exact ⟨here, rfl, hhere⟩
  | p :: ps, d, here, made, hhere, h => by
      have hmade := (grown_makeAlong h).keeps_directory hhere
      rw [makeAlong] at h
      split at h
      · cases h
      · rename_i hfits
        -- the way goes on behind `p`, from a directory that was there or has just been made
        have hon : (∃ place, made.walk (enter here p) ps = .ok place
            ∧ made.node? place = some .directory) →
            ∃ place, made.walk here (p :: ps) = .ok place
              ∧ made.node? place = some .directory := by
          intro hend
          obtain ⟨place, hwalk, hplace⟩ := hend
          refine ⟨place, ?_, hplace⟩
          rw [walk, hmade]
          simp only
          rw [if_neg hfits, hwalk]
        cases hnode : d.node? (enter here p) with
        | none =>
            simp only [hnode] at h
            refine hon (walk_makeAlong ?_ h)
            rw [node?_put (node?_eq_none.mp hnode).1, if_pos rfl]
        | some node =>
            cases node with
            | file content =>
                simp only [hnode] at h
                cases h
            | directory =>
                simp only [hnode] at h
                exact hon (walk_makeAlong hnode h)

/-- **A made directory is there.** -/
theorem directoryPlace?_makeDirectory {made : Disk} (h : d.makeDirectory name = .ok made) :
    ∃ place, made.directoryPlace? name = some place := by
  have horigin : d.node? (origin name) = some .directory := by
    have hbase : isBase (origin name) = true := by
      unfold origin
      split <;> decide
    unfold node?
    rw [if_pos hbase]
  obtain ⟨place, hwalk, hnode⟩ := walk_makeAlong horigin h
  exact ⟨place, directoryPlace?_eq_some.mpr ⟨hwalk, hnode⟩⟩

end Disk

end Crosswalk.Storage
