/-
  Crosswalk.Proofs.Storage.WellFormed
  ──────────────────────────────────────
  **WELL-FORMED DISKS.**

  A disk is well formed when it has one thing at a place, and nothing but
  things with names that entries can have.  Whatever is written, made or
  removed leaves it so, and the order of what is on it does not matter.  A
  directory of such a disk lists every entry once.

    • `mem_list`: what a directory lists is what it has,
    • `nodup_list`: and nothing twice,
    • `WellFormed.write`, `WellFormed.makeDirectory`, `WellFormed.remove`:
      what happens to a disk leaves it well formed,
    • `wellFormed_edits`: so all disks are that come from an empty one.
-/
import Mathlib.Data.List.Nodup
import Crosswalk.Proofs.Storage.Entry

namespace Crosswalk.Storage

/-! ## §1. Well-formed disks. -/

/-- The place is that of an entry of a directory. -/
def IsEntryPlace (place : Place) : Prop :=
  ∃ front name, place = front ++ [name] ∧ IsEntryName name ∧ Text.byteSize name ≤ Disk.longestPart

namespace Disk

variable {d : Disk} {directory name : Text} {names : List Text} {place : Place}

/-- The places of all files and directories. -/
def places (d : Disk) : List Place :=
  d.entries.map Prod.fst

/-- A disk as it can be. -/
structure WellFormed (d : Disk) : Prop where
  /-- There is one thing at a place. -/
  distinct : d.places.Nodup
  named : ∀ place ∈ d.places, IsEntryPlace place

theorem wellFormed_empty : WellFormed .empty :=
  ⟨List.nodup_nil, fun _ h => absurd h List.not_mem_nil⟩

/-- An entry is at none of the places that are always there. -/
theorem isBase_concat (h : IsEntryName name) (front : Place) : isBase (front ++ [name]) = false := by
  have hparent : (name == parent) = false := beq_eq_false_iff_ne.mpr h.ne_parent
  have hroot : (front ++ [name] == [root]) = false := by
    rw [beq_eq_false_iff_ne]
    intro heq
    have hlast : name = root := by
      have := congrArg List.getLast? heq
      simpa using this
    exact h.flat (hlast ▸ List.mem_singleton_self '/')
  unfold isBase
  rw [List.all_append, List.all_cons, hparent, Bool.false_and, Bool.and_false, hroot, Bool.or_self]

/-- Something stands at a place exactly when the place is one of the disk's, or always there. -/
theorem node?_eq_none : d.node? place = none ↔ isBase place = false ∧ place ∉ d.places := by
  unfold node? places
  by_cases hbase : isBase place = true
  · simp [hbase]
  · rw [if_neg hbase, Option.map_eq_none_iff, List.find?_eq_none]
    have hmissing : (∀ e ∈ d.entries, ¬ decide (e.1 = place) = true)
        ↔ place ∉ d.entries.map Prod.fst := by
      simp only [List.mem_map, decide_eq_true_eq, not_exists, not_and]
    rw [hmissing]
    exact ⟨fun h => ⟨by simpa using hbase, h⟩, And.right⟩

theorem mem_places_of_node? {node : Node} (hbase : isBase place = false)
    (h : d.node? place = some node) : place ∈ d.places := by
  by_contra hnot
  rw [node?_eq_none.mpr ⟨hbase, hnot⟩] at h
  cases h

/-- There is one thing at a place, and a file is at no place that is always there. -/
theorem isBase_of_file {content : Content} (h : d.node? place = some (.file content)) :
    isBase place = false := by
  by_contra hbase
  unfold node? at h
  rw [if_pos (by simpa using hbase)] at h
  cases h

/-! ## §2. What a directory lists. -/

/-- A directory that can be listed is found, and its entries are those at the places below it. -/
theorem list_eq_ok (h : d.list directory = .ok names) :
    ∃ place, d.walk (origin directory) (parts directory) = .ok place
      ∧ d.node? place = some .directory
      ∧ names = d.places.filterMap (fun p => if p.dropLast = place then p.getLast? else none) := by
  unfold list locate at h
  split at h
  · cases h
  · rename_i place hlocate
    split at h
    · cases h
    · cases h
    · rename_i hnode
      refine ⟨place, ?_, hnode, ?_⟩
      · split at hlocate
        · cases hlocate
        · split at hlocate
          · cases hlocate
          · rename_i hwalk
            split at hlocate
            · cases hlocate
            · cases hlocate
              exact hwalk
      · rw [places, List.filterMap_map]
        exact (Except.ok.inj h).symm

/-- The listed names are those at the end of the places directly below. -/
theorem getLast?_eq_iff_concat {p : Place} :
    (if p.dropLast = place then p.getLast? else none) = some name ↔ p = place ++ [name] := by
  constructor
  · intro h
    split at h
    · rename_i hfront
      rw [← hfront]
      exact (List.dropLast_append_getLast? name h).symm
    · cases h
  · rintro rfl
    simp

/-- **A directory lists what it has.** -/
theorem mem_list (hd : d.WellFormed) (h : d.list directory = .ok names) :
    name ∈ names ↔ IsEntryName name ∧ Text.byteSize name ≤ longestPart
      ∧ (d.entry? directory name).isSome = true := by
  obtain ⟨place, hwalk, hnode, rfl⟩ := list_eq_ok h
  have hlisted : name ∈ d.places.filterMap (fun p => if p.dropLast = place then p.getLast? else none)
      ↔ place ++ [name] ∈ d.places := by
    rw [List.mem_filterMap]
    constructor
    · rintro ⟨p, hp, hname⟩
      exact getLast?_eq_iff_concat.mp hname ▸ hp
    · intro hp
      exact ⟨place ++ [name], hp, getLast?_eq_iff_concat.mpr rfl⟩
  have hentry : d.entry? directory name = d.node? (place ++ [name]) := by
    unfold entry?
    rw [hwalk]
    exact if_pos hnode
  rw [hlisted, hentry]
  constructor
  · intro hp
    obtain ⟨front, last, hplace, hname, hfits⟩ := hd.named _ hp
    obtain ⟨-, hlast⟩ := List.append_inj' hplace rfl
    obtain rfl : name = last := by simpa using hlast
    refine ⟨hname, hfits, ?_⟩
    rw [Option.isSome_iff_ne_none]
    exact fun hnone => (node?_eq_none.mp hnone).2 hp
  · rintro ⟨hname, -, hsome⟩
    obtain ⟨node, hnode⟩ := Option.isSome_iff_exists.mp hsome
    exact mem_places_of_node? (isBase_concat hname place) hnode

/-- **A directory lists nothing twice.** -/
theorem nodup_list (hd : d.WellFormed) (h : d.list directory = .ok names) : names.Nodup := by
  obtain ⟨place, -, -, rfl⟩ := list_eq_ok h
  refine hd.distinct.filterMap ?_
  intro p p' n hp hp'
  rw [getLast?_eq_iff_concat.mp hp, getLast?_eq_iff_concat.mp hp']

/-- Files have names that entries can have. -/
theorem HasFile.named (hd : d.WellFormed) (h : d.HasFile directory name) :
    IsEntryName name ∧ Text.byteSize name ≤ longestPart := by
  obtain ⟨content, hentry⟩ := h
  unfold entry? at hentry
  split at hentry
  · cases hentry
  · split at hentry
    · have hplace := mem_places_of_node? (isBase_of_file hentry) hentry
      obtain ⟨front, last, heq, hname, hfits⟩ := hd.named _ hplace
      obtain ⟨-, hlast⟩ := List.append_inj' heq rfl
      obtain rfl : name = last := by simpa using hlast
      exact ⟨hname, hfits⟩
    · cases hentry

/-- A file of a directory is found under its name in it, and nothing else is. -/
theorem WellFormed.isFile_join (hd : d.WellFormed) (directory : Text) (h : IsEntryName name) :
    d.isFile (join directory name) = true ↔ d.HasFile directory name := by
  rw [Disk.isFile_join d directory h]
  exact ⟨And.right, fun hfile => ⟨(hfile.named hd).2, hfile⟩⟩

/-! ## §3. What happens to a disk. -/

/-- A place that a name can lead to: some parts below a place that is always there. -/
def IsReached (place : Place) : Prop :=
  ∃ base below, place = base ++ below ∧ isBase base = true
    ∧ ∀ name ∈ below, IsEntryName name ∧ Text.byteSize name ≤ longestPart

theorem isReached_origin (name : Text) : IsReached (origin name) := by
  refine ⟨origin name, [], (List.append_nil _).symm, ?_, fun _ h => absurd h List.not_mem_nil⟩
  unfold origin
  split <;> decide

/-- The places that are reached are always there, or those of entries. -/
theorem IsReached.isEntryPlace (h : IsReached place) (hbase : isBase place = false) :
    IsEntryPlace place := by
  obtain ⟨base, below, rfl, hb, hbelow⟩ := h
  rcases List.eq_nil_or_concat below with rfl | ⟨front, name, rfl⟩
  · rw [List.append_nil, hb] at hbase
    cases hbase
  · exact ⟨base ++ front, name, by rw [List.append_assoc, List.concat_eq_append],
      hbelow name (by simp)⟩

theorem isBase_iff : isBase place = true ↔ (∀ part ∈ place, part = parent) ∨ place = [root] := by
  unfold isBase
  rw [Bool.or_eq_true, List.all_eq_true, beq_iff_eq]
  simp only [beq_iff_eq]

/-- Around a place that is always there is another such place. -/
theorem isBase_around (h : isBase place = true) : isBase (enter place parent) = true := by
  rcases isBase_iff.mp h with hall | rfl
  · have hup : enter place parent = place ++ [parent] := by
      unfold enter
      rw [if_pos rfl]
      rcases List.eq_nil_or_concat place with rfl | ⟨front, last, rfl⟩
      · rfl
      · have hlast : last = parent := hall last (by simp)
        rw [List.concat_eq_append, List.getLast?_concat]
        exact if_pos hlast
    rw [hup]
    apply isBase_iff.mpr (.inl _)
    intro part hpart
    rcases List.mem_append.mp hpart with hpart | hpart
    · exact hall part hpart
    · exact List.mem_singleton.mp hpart
  · decide

/-- **One part of a name leads to a place that can be reached.** -/
theorem IsReached.enter {part : Text} (h : IsReached place) (hflat : '/' ∉ part) (hne : part ≠ [])
    (hhere : part ≠ ['.']) (hfits : Text.byteSize part ≤ longestPart) :
    IsReached (enter place part) := by
  obtain ⟨base, below, rfl, hb, hbelow⟩ := h
  by_cases hparent : part = parent
  · subst hparent
    rcases List.eq_nil_or_concat below with rfl | ⟨front, name, rfl⟩
    · refine ⟨Disk.enter base parent, [], ?_, isBase_around hb, fun _ h => absurd h List.not_mem_nil⟩
      rw [List.append_nil, List.append_nil]
    · -- an entry is left for its directory
      rw [List.concat_eq_append] at hbelow ⊢
      have hname := (hbelow name (by simp)).1
      have hroot : name ≠ root := by
        rintro rfl
        exact hname.flat (List.mem_singleton_self '/')
      refine ⟨base, front, ?_, hb, fun n hn => hbelow n (List.mem_append_left _ hn)⟩
      unfold Disk.enter
      rw [if_pos rfl, ← List.append_assoc, List.getLast?_concat]
      simp only [if_neg hname.ne_parent, if_neg hroot, List.dropLast_concat]
  · refine ⟨base, below ++ [part], ?_, hb, ?_⟩
    · unfold Disk.enter
      rw [if_neg hparent, List.append_assoc]
    · intro n hn
      rcases List.mem_append.mp hn with hn | hn
      · exact hbelow n hn
      · rw [List.mem_singleton.mp hn]
        exact ⟨⟨hne, hflat, hhere, hparent⟩, hfits⟩

/-- What stands between the slashes of a name has none. -/
theorem slash_not_mem_of_mem_splitOn : ∀ {name part : Text}, part ∈ name.splitOn '/' → '/' ∉ part := by
  intro name
  induction name with
  | nil =>
      intro part h
      rw [List.splitOn_nil, List.mem_singleton] at h
      simp [h]
  | cons c name ih =>
      intro part h
      rw [List.splitOn_cons_eq_if_modifyHead] at h
      split at h
      · rcases List.mem_cons.mp h with rfl | h
        · simp
        · exact ih h
      · rename_i hc
        cases hrest : name.splitOn '/' with
        | nil => exact absurd hrest (List.splitOn_ne_nil _ _)
        | cons first rest =>
            rw [hrest, List.modifyHead_cons] at h
            rw [hrest] at ih
            rcases List.mem_cons.mp h with rfl | h
            · intro hmem
              rcases List.mem_cons.mp hmem with heq | hmem
              · exact hc (beq_iff_eq.mpr heq.symm)
              · exact ih List.mem_cons_self hmem
            · exact ih (List.mem_cons_of_mem first h)

theorem mem_parts {part : Text} (h : part ∈ parts name) : '/' ∉ part ∧ part ≠ [] ∧ part ≠ ['.'] := by
  unfold parts at h
  obtain ⟨hmem, hsays⟩ := List.mem_filter.mp h
  refine ⟨slash_not_mem_of_mem_splitOn hmem, ?_, ?_⟩
  · rintro rfl
    simp at hsays
  · rintro rfl
    simp at hsays

/-- A way along the parts of names ends at a place that can be reached. -/
theorem IsReached.walk : ∀ {ps : List Text} {here : Place}, IsReached here →
    (∀ p ∈ ps, '/' ∉ p ∧ p ≠ [] ∧ p ≠ ['.']) → d.walk here ps = .ok place → IsReached place
  | [], here, h, _, hwalk => by
      rw [Disk.walk] at hwalk
      exact Except.ok.inj hwalk ▸ h
  | p :: ps, here, h, hps, hwalk => by
      rw [Disk.walk] at hwalk
      split at hwalk
      · cases hwalk
      · cases hwalk
      · split at hwalk
        · cases hwalk
        · rename_i hfits
          obtain ⟨hflat, hne, hhere⟩ := hps p List.mem_cons_self
          have hnext := h.enter hflat hne hhere (Nat.le_of_not_lt hfits)
          exact IsReached.walk hnext (fun q hq => hps q (List.mem_cons_of_mem p hq)) hwalk

/-- **What is put at a place that can be reached leaves a disk well formed.** -/
theorem WellFormed.put (hd : d.WellFormed) (node : Node) (h : IsReached place) :
    (d.put place node).WellFormed := by
  unfold Disk.put
  split
  · -- the places stay what they are
    rename_i hthere
    have hplaces : places ⟨d.entries.map (fun e => if e.1 = place then (place, node) else e)⟩
        = d.places := by
      unfold places
      rw [List.map_map]
      apply List.map_congr_left
      intro e _
      by_cases he : e.1 = place
      · simp [he]
      · simp [he]
    exact ⟨hplaces ▸ hd.distinct, hplaces ▸ hd.named⟩
  · rename_i hnew
    have hnone : d.node? place = none := by simpa using hnew
    obtain ⟨hbase, hplace⟩ := node?_eq_none.mp hnone
    refine ⟨List.nodup_cons.mpr ⟨hplace, hd.distinct⟩, ?_⟩
    intro p hp
    rcases List.mem_cons.mp hp with rfl | hp
    · exact h.isEntryPlace hbase
    · exact hd.named p hp

theorem WellFormed.remove (hd : d.WellFormed) (place : Place) : (d.remove place).WellFormed := by
  have hsub : (d.remove place).places.Sublist d.places := List.filter_sublist.map Prod.fst
  exact ⟨hd.distinct.sublist hsub, fun p hp => hd.named p (hsub.subset hp)⟩

/-- **A written file leaves a disk well formed.** -/
theorem WellFormed.write {content : Content} {next : Disk} (hd : d.WellFormed)
    (h : d.write name content = .ok next) : next.WellFormed := by
  unfold Disk.write locate at h
  split at h
  · cases h
  · rename_i place hlocate
    have hreached : IsReached place := by
      split at hlocate
      · cases hlocate
      · split at hlocate
        · cases hlocate
        · rename_i hwalk
          have hend := (isReached_origin name).walk (fun p hp => mem_parts hp) hwalk
          split at hlocate
          · cases hlocate
          · exact Except.ok.inj hlocate ▸ hend
    split at h
    · cases h
    · exact Except.ok.inj h ▸ hd.put _ hreached
    · split at h
      · cases h
      · exact Except.ok.inj h ▸ hd.put _ hreached
    · cases h
    · cases h

theorem WellFormed.makeAlong : ∀ {ps : List Text} {d : Disk} {here : Place} {next : Disk},
    d.WellFormed → IsReached here → (∀ p ∈ ps, '/' ∉ p ∧ p ≠ [] ∧ p ≠ ['.']) →
      d.makeAlong here ps = .ok next → next.WellFormed
  | [], d, here, next, hd, _, _, h => by
      rw [Disk.makeAlong] at h
      exact Except.ok.inj h ▸ hd
  | p :: ps, d, here, next, hd, hreached, hps, h => by
      rw [Disk.makeAlong] at h
      split at h
      · cases h
      · rename_i hfits
        obtain ⟨hflat, hne, hhere⟩ := hps p List.mem_cons_self
        have hrest : ∀ q ∈ ps, '/' ∉ q ∧ q ≠ [] ∧ q ≠ ['.'] := fun q hq =>
          hps q (List.mem_cons_of_mem p hq)
        have hnext := hreached.enter hflat hne hhere (Nat.le_of_not_lt hfits)
        cases hnode : d.node? (Disk.enter here p) with
        | none =>
            simp only [hnode] at h
            exact WellFormed.makeAlong (hd.put _ hnext) hnext hrest h
        | some node =>
            cases node with
            | file content =>
                simp only [hnode] at h
                cases h
            | directory =>
                simp only [hnode] at h
                exact WellFormed.makeAlong hd hnext hrest h

/-- **Made directories leave a disk well formed.** -/
theorem WellFormed.makeDirectory {next : Disk} (hd : d.WellFormed)
    (h : d.makeDirectory name = .ok next) : next.WellFormed :=
  WellFormed.makeAlong hd (isReached_origin name) (fun _ hp => mem_parts hp) h

/-- A change of a disk. -/
inductive Edit
  | write (name : Text) (content : Content)
  | makeDirectory (name : Text)
  | remove (place : Place)

/-- The disk after a change; one that fails leaves it as it is. -/
def edit (d : Disk) : Edit → Disk
  | .write name content => (d.write name content).toOption.getD d
  | .makeDirectory name => (d.makeDirectory name).toOption.getD d
  | .remove place => d.remove place

theorem WellFormed.edit (hd : d.WellFormed) (change : Edit) : (d.edit change).WellFormed := by
  cases change with
  | write name content =>
      show ((d.write name content).toOption.getD d).WellFormed
      cases hwrite : d.write name content with
      | error e => exact hd
      | ok next => exact hd.write hwrite
  | makeDirectory name =>
      show ((d.makeDirectory name).toOption.getD d).WellFormed
      cases hmake : d.makeDirectory name with
      | error e => exact hd
      | ok next => exact hd.makeDirectory hmake
  | remove place => exact hd.remove place

/-- **Every disk that comes from an empty one is well formed.** -/
theorem wellFormed_edits (changes : List Edit) : (changes.foldl Disk.edit empty).WellFormed := by
  have hrun : ∀ d : Disk, d.WellFormed → (changes.foldl Disk.edit d).WellFormed := by
    induction changes with
    | nil => exact fun d hd => hd
    | cons change changes ih => exact fun d hd => ih (d.edit change) (hd.edit change)
  exact hrun empty wellFormed_empty

end Disk

end Crosswalk.Storage
