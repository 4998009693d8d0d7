/-
  Crosswalk.Proofs.Command.Batch
  ──────────────────────────────────────
  **WHAT A BATCH DOES, WHATEVER ITS WORKERS DO FIRST.**

  A batch whose files have different stems leaves the same report and the
  same files in whatever order its workers take their turns, and accounts for
  every file once.  A file fails in a batch exactly when it fails on its own.
  What is written on its own is also what a batch leaves, as long as files
  with one stem are translated into one text; otherwise the last of them
  takes the place of the others, and none of them is reported.

    • `mem_inputFiles`, `nodup_inputFiles`: the files of a batch,
    • `alone_of_fate_ok`, `alone_of_fate_error`: files on their own,
    • `batch_keeps_iff`: what a batch keeps of what its files are translated
      into,
    • `batch_any_order`: reports and files for all orders.
-/
import Crosswalk.Command.Run
import Crosswalk.Proofs.Catalog.Loader
import Crosswalk.Proofs.Command.Crew
import Crosswalk.Proofs.Command.Report

namespace Crosswalk.Command

open Storage (Disk IsEntryName Place Content)

variable {b : Batch} {d made : Disk} {now : Calendar.Instant}
  {directory inputs outputs route input output text : Text} {files : List Text}

/-! ## §1. Files of a batch. -/

/-- A batch can begin when its route loads, its output directory can be made, and its input
directory can be listed. -/
theorem prepare_eq_ok :
    prepare d now directory inputs outputs route = (made, .ok (b, files)) ↔
      ∃ r, (Catalog.load d directory route).result = .ok r ∧ d.makeDirectory outputs = .ok made
        ∧ inputFiles made inputs = .ok files ∧ b = ⟨now, r, outputs⟩ := by
  unfold prepare
  constructor
  · intro h
    split at h
    · cases h
    · rename_i r hload
      split at h
      · cases h
      · rename_i disk hmake
        split at h
        · cases h
        · rename_i listed hfiles
          obtain ⟨rfl, hrest⟩ := Prod.mk.inj h
          obtain ⟨rfl, rfl⟩ := Prod.mk.inj (Except.ok.inj hrest)
          exact ⟨r, hload, hmake, hfiles, rfl⟩
  · intro ⟨r, hload, hmake, hfiles, hb⟩
    rw [hload, hmake]
    simp only [hfiles, hb]

theorem inputFiles_eq_ok (h : inputFiles made inputs = .ok files) :
    ∃ names, made.list inputs = .ok names
      ∧ files.Perm ((names.map (Storage.join inputs)).filter made.isFile) := by
  unfold inputFiles at h
  cases hlist : made.list inputs with
  | error e =>
      rw [hlist] at h
      cases h
  | ok names =>
      rw [hlist] at h
      obtain rfl := Except.ok.inj h
      exact ⟨names, rfl, List.mergeSort_perm _ _⟩

/-- **The files of a batch are the files of its input directory.** -/
theorem mem_inputFiles (hd : made.WellFormed) (h : inputFiles made inputs = .ok files) :
    input ∈ files ↔ ∃ name, input = Storage.join inputs name ∧ made.HasFile inputs name := by
  obtain ⟨names, hlist, hperm⟩ := inputFiles_eq_ok h
  rw [hperm.mem_iff, List.mem_filter, List.mem_map]
  constructor
  · intro ⟨⟨name, hname, hjoin⟩, hfile⟩
    have hentry := ((Disk.mem_list hd hlist).mp hname).1
    rw [← hjoin] at hfile
    exact ⟨name, hjoin.symm, (hd.isFile_join inputs hentry).mp hfile⟩
  · intro ⟨name, hjoin, hfile⟩
    obtain ⟨hentry, hfits⟩ := hfile.named hd
    obtain ⟨content, hnode⟩ := hfile
    refine ⟨⟨name, (Disk.mem_list hd hlist).mpr ⟨hentry, hfits, ?_⟩, hjoin.symm⟩, ?_⟩
    · rw [hnode]
      rfl
    · rw [hjoin]
      exact (hd.isFile_join inputs hentry).mpr ⟨content, hnode⟩

/-- **No file is in a batch twice.** -/
theorem nodup_inputFiles (hd : made.WellFormed) (h : inputFiles made inputs = .ok files) :
    files.Nodup := by
  obtain ⟨names, hlist, hperm⟩ := inputFiles_eq_ok h
  rw [hperm.nodup_iff]
  refine List.Nodup.filter _ (List.Nodup.map_on ?_ (Disk.nodup_list hd hlist))
  intro name hname name' hname' hjoin
  have hentry := ((Disk.mem_list hd hlist).mp hname).1
  have hentry' := ((Disk.mem_list hd hlist).mp hname').1
  have hlast := congrArg Storage.entryName? hjoin
  rw [Storage.entryName?_join inputs hentry, Storage.entryName?_join inputs hentry'] at hlast
  exact Option.some.inj hlast

/-- A batch that can begin has its files in one directory and its outputs in another one. -/
theorem site_of_prepare (hd : d.WellFormed)
    (h : prepare d now directory inputs outputs route = (made, .ok (b, files)))
    (hapart : made.directoryPlace? inputs ≠ made.directoryPlace? outputs) :
    ∃ source target, Site b made inputs files source target := by
  obtain ⟨r, -, hmake, hfiles, rfl⟩ := prepare_eq_ok.mp h
  have hmade := hd.makeDirectory hmake
  obtain ⟨names, hlist, -⟩ := inputFiles_eq_ok hfiles
  obtain ⟨source, hsource⟩ := Disk.directoryPlace?_of_list hlist
  obtain ⟨target, htarget⟩ := Disk.directoryPlace?_makeDirectory hmake
  refine ⟨source, target, hsource, htarget, ?_, ?_⟩
  · rintro rfl
    exact hapart (hsource.trans htarget.symm)
  · intro file hfile
    obtain ⟨name, rfl, hhas⟩ := (mem_inputFiles hmade hfiles).mp hfile
    have hentry := (hhas.named hmade).1
    exact ⟨name, rfl, hentry, (hmade.isFile_join inputs hentry).mpr hhas⟩

/-! ## §2. Files on their own. -/

/-- **A route that loads does so when directories are made**, and is the same. -/
theorem load_grown {r : Route} {id : Text} (hgrown : d.Grown made)
    (h : (Catalog.load d directory id).result = .ok r) :
    (Catalog.load made directory id).result = .ok r := by
  obtain ⟨hid, file, hfile, hload⟩ := Catalog.load_eq_ok.mp h
  -- the directory of the routes is there, or no route would have been found in it
  have hthere : ∃ place, d.directoryPlace? directory = some place := by
    obtain ⟨extension, hext, rfl⟩ := List.mem_map.mp (List.mem_of_find?_eq_some hfile)
    have hhas := (Disk.isFile_join d directory (Catalog.isEntryName_routeFile hid hext)).mp
      (List.find?_some hfile)
    obtain ⟨content, hentry⟩ := hhas.2
    exact Disk.directoryPlace?_of_entry hentry
  obtain ⟨place, hplace⟩ := hthere
  have hplace' := Disk.directoryPlace?_mono (fun q => hgrown.keeps_directory) hplace
  have hsame : ∀ extension ∈ Catalog.extensions,
      (d.isFile (Catalog.fileOf directory (Text.trim id) extension)
          = made.isFile (Catalog.fileOf directory (Text.trim id) extension))
        ∧ (d.isFile (Catalog.fileOf directory (Text.trim id) extension) = true →
          d.read (Catalog.fileOf directory (Text.trim id) extension)
            = made.read (Catalog.fileOf directory (Text.trim id) extension)) := by
    intro extension hext
    have hname := Catalog.isEntryName_routeFile hid hext
    constructor
    · rw [Bool.eq_iff_iff]
      show d.isFile (Storage.join _ _) = true ↔ made.isFile (Storage.join _ _) = true
      rw [Disk.isFile_join d directory hname, Disk.isFile_join made directory hname]
      unfold Disk.HasFile
      rw [Disk.entry?_eq hplace, Disk.entry?_eq hplace']
      simp only [hgrown.file_iff]
    · intro hisFile
      have hisFile' := hisFile
      obtain ⟨-, content, hentry⟩ := (Disk.isFile_join d directory hname).mp hisFile'
      refine Disk.read_join_congr hname hisFile ?_
      rw [hentry, Disk.entry?_eq hplace']
      rw [Disk.entry?_eq hplace] at hentry
      exact (hgrown.file_iff.mpr hentry).symm
  refine Catalog.load_eq_ok.mpr ⟨hid, file, ?_, ?_⟩
  · rw [← hfile]
    unfold Catalog.routeFile?
    rw [← List.head?_filter, ← List.head?_filter]
    congr 1
    apply List.filter_congr
    intro candidate hmem
    obtain ⟨extension, hext, rfl⟩ := List.mem_map.mp hmem
    exact (hsame extension hext).1.symm
  · obtain ⟨extension, hext, rfl⟩ := List.mem_map.mp (List.mem_of_find?_eq_some hfile)
    rw [← Catalog.loadAs_congr ((hsame extension hext).2 (List.find?_some hfile))]
    exact hload

/-- What the command for a single file does with a file of a batch. -/
def alone (b : Batch) (d : Disk) (directory route input : Text) : Disk × Except Trouble Text :=
  (Task.translate input (b.output? input) route).run d b.now directory

/-- A translator translates by the route that is loaded. -/
theorem request_empty {r : Route} (h : (Catalog.load d directory route).result = .ok r)
    (content : Text) :
    (Delivery.request (.empty directory) d now content route).result =
      (Delivery.requestBy now content r).map Engine.Translated.text := by
  have hstep : ((Catalog.Registry.empty directory).getOrLoad d route).loaded.result = .ok r := by
    show ((Catalog.Registry.empty directory).refresh d route).loaded.result = .ok r
    have hload : (Catalog.load d (Catalog.Registry.empty directory).directory route).result
        = .ok r := h
    unfold Catalog.Registry.refresh
    simp only [hload]
  unfold Delivery.request Delivery.translateBy
  simp only [hstep]
  cases Delivery.requestBy now content r with
  | error e => rfl
  | ok t => rfl

/-- A file that is translated on its own is translated as in a batch, then written. -/
theorem alone_eq (hload : (Catalog.load made directory route).result = .ok b.route)
    (input : Text) :
    (∀ text, b.translate made input = .ok text →
        alone b made directory route input = writeOutput made (b.output? input) text)
      ∧ (∀ t, b.translate made input = .error t →
        ∃ t', (alone b made directory route input).2 = .error t') := by
  have halone : alone b made directory route input = translateFile made input (b.output? input)
      (fun content => Delivery.request (.empty directory) made b.now content route) := rfl
  rw [halone]
  unfold translateFile readInput Batch.translate
  cases made.read input with
  | error e =>
      constructor
      · intro text h
        cases h
      · intro t _
        exact ⟨_, rfl⟩
  | ok content =>
      simp only [Except.mapError, request_empty hload, Delivery.requestBy]
      cases Engine.request b.now content b.route with
      | error e =>
          constructor
          · intro text h
            cases h
          · intro t _
            exact ⟨_, rfl⟩
      | ok t =>
          constructor
          · intro text h
            obtain rfl := Except.ok.inj h
            rfl
          · intro t h
            cases h

section

variable {source target : Place} (site : Site b made inputs files source target)
  (hload : (Catalog.load made directory route).result = .ok b.route)

include site hload

/-- **A file that a batch cannot translate fails on its own.** -/
theorem alone_of_fate_error {t : Trouble} (hmem : input ∈ files)
    (h : b.fate made input = .error t) :
    ∃ t', (alone b made directory route input).2 = .error t' := by
  obtain ⟨hok, herror⟩ := alone_eq hload input
  cases htranslate : b.translate made input with
  | error cause => exact herror cause htranslate
  | ok text =>
      obtain ⟨name, rfl, hname, -⟩ := site.files input hmem
      obtain ⟨n, hn, hentry⟩ := exists_outputName inputs hname
      have houtput : b.output? (Storage.join inputs name) = some (Storage.join b.outputs n) := by
        rw [b.output?_eq, hn, Option.map_some]
      rw [hok text htranslate, houtput]
      unfold Batch.fate at h
      rw [htranslate, houtput] at h
      simp only [Disk.write_join site.targetAt hentry] at h
      unfold writeOutput
      simp only [Disk.write_join site.targetAt hentry]
      by_cases hlong : Disk.longestPart < Text.byteSize n
      · rw [if_pos hlong]
        exact ⟨_, rfl⟩
      · rw [if_neg hlong] at h ⊢
        by_cases hdir : made.node? (target ++ [n]) = some .directory
        · rw [if_pos hdir]
          exact ⟨_, rfl⟩
        · rw [if_neg hdir] at h
          cases h

/-- **A file that a batch translates is translated on its own**, into the same text. -/
theorem alone_of_fate_ok (hmem : input ∈ files) (h : b.fate made input = .ok (output, text)) :
    (alone b made directory route input).2 = .ok []
      ∧ (alone b made directory route input).1.read output = .ok text := by
  obtain ⟨hok, -⟩ := alone_eq hload input
  obtain ⟨htranslate, houtput, n, hentry, hfits, rfl, hdir⟩ := site.fate_eq_ok hmem h
  have hwrite : made.write (Storage.join b.outputs n) (.text text)
      = .ok (made.put (target ++ [n]) (.file (.text text))) := by
    rw [Disk.write_join site.targetAt hentry, if_neg (Nat.not_lt.mpr hfits), if_neg hdir]
  rw [hok text htranslate, houtput]
  unfold writeOutput
  simp only [hwrite, true_and]
  have hnode := Disk.node?_put (Disk.isBase_concat hentry target) made (.file (.text text))
  have htarget : (made.put (target ++ [n]) (.file (.text text))).directoryPlace? b.outputs
      = some target := by
    refine Disk.directoryPlace?_mono ?_ site.targetAt
    intro q hq
    rw [hnode, if_neg]
    · exact hq
    · rintro rfl
      exact hdir hq
  refine Disk.read_join htarget hentry hfits ?_
  rw [hnode, if_pos rfl]

end

/-! ## §3. What a batch keeps. -/

/-- Files with different stems are written under different names. -/
theorem agree_of_stems {source target : Place} (site : Site b made inputs files source target)
    (hstems : (files.map Storage.stem?).Nodup) : Agree b made files := by
  intro input hmem input' hmem' output text text' hfate hfate'
  have hname : ∀ {file : Text}, file ∈ files → ∀ {t : Text},
      b.fate made file = .ok (output, t) →
        ∃ stem, Storage.stem? file = some stem
          ∧ output = Storage.join b.outputs (stem ++ ".xml".toList)
          ∧ IsEntryName (stem ++ ".xml".toList) := by
    intro file hfile t h
    obtain ⟨-, houtput, -⟩ := site.fate_eq_ok hfile h
    obtain ⟨name, rfl, hentry, -⟩ := site.files file hfile
    obtain ⟨n, hn, hentryName⟩ := exists_outputName inputs hentry
    rw [b.output?_eq, hn] at houtput
    unfold outputName? at hn
    obtain ⟨stem, hstem, rfl⟩ := Option.map_eq_some_iff.mp hn
    exact ⟨stem, hstem, (Option.some.inj houtput).symm, hentryName⟩
  obtain ⟨stem, hstem, hjoin, hentry⟩ := hname hmem hfate
  obtain ⟨stem', hstem', hjoin', hentry'⟩ := hname hmem' hfate'
  have hlast := congrArg Storage.entryName? (hjoin.symm.trans hjoin')
  rw [Storage.entryName?_join _ hentry, Storage.entryName?_join _ hentry'] at hlast
  obtain rfl := List.append_cancel_right (Option.some.inj hlast)
  obtain rfl := List.inj_on_of_nodup_map hstems hmem hmem' (hstem.trans hstem'.symm)
  rw [hfate] at hfate'
  exact (Prod.mk.inj (Except.ok.inj hfate')).2

/-- Some job of a file that is written is done with it. -/
theorem mem_done_of_fate {c : Crew} (hsound : c.Sound b made files)
    (hfinished : c.isFinished = true) (hmem : input ∈ files)
    (hfate : b.fate made input = .ok (output, text)) : Done.mk input (.ok output) ∈ c.done := by
  rw [hsound.done_of_finished hfinished]
  refine List.mem_map.mpr ⟨input, hmem, ?_⟩
  rw [hfate]
  rfl

/-- What becomes of a file is its fate. -/
theorem result_of_mem_done {c : Crew} (hsound : c.Sound b made files)
    (hfinished : c.isFinished = true) {x : Done} (hx : x ∈ c.done) :
    x.input ∈ files ∧ x.result = (b.fate made x.input).map Prod.fst := by
  rw [hsound.done_of_finished hfinished] at hx
  obtain ⟨file, hfile, rfl⟩ := List.mem_map.mp hx
  exact ⟨hfile, rfl⟩

/-- A file that was translated had that as its fate. -/
theorem fate_of_mem_done {c : Crew} (hsound : c.Sound b made files)
    (hfinished : c.isFinished = true) {x : Done} (hx : x ∈ c.done)
    (hresult : x.result = .ok output) : ∃ text, b.fate made x.input = .ok (output, text) := by
  rw [(result_of_mem_done hsound hfinished hx).2] at hresult
  cases hfate : b.fate made x.input with
  | error t =>
      rw [hfate] at hresult
      cases hresult
  | ok written =>
      rw [hfate] at hresult
      obtain rfl : written.1 = output := Except.ok.inj hresult
      exact ⟨written.2, rfl⟩

section

variable {c : Crew} {source target : Place} (site : Site b made inputs files source target)
  (hsound : c.Sound b made files) (hfinished : c.isFinished = true)

include site hsound hfinished

/-- What was written is what is read in the end, when no two jobs write different texts. -/
theorem Crew.Holds.read_of_finished (h : c.Holds b made) (hmem : input ∈ files)
    (hfate : b.fate made input = .ok (output, text)) : c.disk.read output = .ok text := by
  obtain ⟨n, hentry, hfits, rfl, hlocate, -⟩ := site.locate_output hmem hfate
  have htarget := Disk.directoryPlace?_mono (fun q => (hsound.kept.directories q).mpr) site.targetAt
  exact Disk.read_join htarget hentry hfits
    (h.node?_of_finished hsound hfinished hmem hfate hlocate)

variable (hload : (Catalog.load made directory route).result = .ok b.route)

include hload

/-- **A file fails in a batch exactly when it fails on its own.** -/
theorem failed_iff {x : Done} (hx : x ∈ c.done) :
    (∃ t, x.result = .error t) ↔ ∃ t, (alone b made directory route x.input).2 = .error t := by
  obtain ⟨hmem, hresult⟩ := result_of_mem_done hsound hfinished hx
  rw [hresult]
  cases hfate : b.fate made x.input with
  | error t => exact ⟨fun _ => alone_of_fate_error site hload hmem hfate, fun _ => ⟨t, rfl⟩⟩
  | ok written =>
      obtain ⟨hok, -⟩ := alone_of_fate_ok site hload hmem hfate
      constructor
      · intro ⟨t, ht⟩
        cases ht
      · intro ⟨t, ht⟩
        rw [hok] at ht
        cases ht

/-- Jobs agree when the files that they write would hold the same on their own. -/
theorem agree_of_alone (hsame : ∀ x ∈ c.done, ∀ y ∈ c.done, ∀ output,
      x.result = .ok output → y.result = .ok output →
        (alone b made directory route x.input).1.read output
          = (alone b made directory route y.input).1.read output) :
    Agree b made files := by
  intro file hfile file' hfile' output text text' hfate hfate'
  have heq := hsame _ (mem_done_of_fate hsound hfinished hfile hfate) _
    (mem_done_of_fate hsound hfinished hfile' hfate') output rfl rfl
  rw [(alone_of_fate_ok site hload hfile hfate).2, (alone_of_fate_ok site hload hfile' hfate').2]
    at heq
  exact Except.ok.inj heq

end

/-- **A batch counts a file as failed exactly when it fails on its own, and keeps what its files
are translated into exactly when those with one stem are translated into one text.**  The command
for a single file is run on the disk with the output directory. -/
theorem batch_keeps_iff (hd : d.WellFormed)
    (hprepare : prepare d now directory inputs outputs route = (made, .ok (b, files)))
    (hapart : made.directoryPlace? inputs ≠ made.directoryPlace? outputs) {turns : List Nat}
    {crew : Crew} (hcrew : (Crew.start made files).run b turns = crew)
    (hfinished : crew.isFinished = true) :
    crew.done.map Done.input = files
      ∧ (∀ x ∈ crew.done, (∃ t, x.result = .error t)
          ↔ ∃ t, (alone b made directory route x.input).2 = .error t)
      ∧ ((∀ x ∈ crew.done, ∀ output, x.result = .ok output →
            b.output? x.input = some output ∧ ∃ text, crew.disk.read output = .ok text
              ∧ (alone b made directory route x.input).1.read output = .ok text)
          ↔ ∀ x ∈ crew.done, ∀ y ∈ crew.done, ∀ output,
              x.result = .ok output → y.result = .ok output →
                (alone b made directory route x.input).1.read output
                  = (alone b made directory route y.input).1.read output) := by
  obtain ⟨source, target, site⟩ := site_of_prepare hd hprepare hapart
  obtain ⟨r, hloaded, hmake, hfiles, hb⟩ := prepare_eq_ok.mp hprepare
  have hload : (Catalog.load made directory route).result = .ok b.route := by
    rw [hb]
    exact load_grown (Disk.grown_makeDirectory hmake) hloaded
  have hstart := Crew.sound_start b made files
  have hsound : crew.Sound b made files := hcrew ▸ hstart.run site turns
  refine ⟨?_, fun x hx => failed_iff site hsound hfinished hload hx, ?_, ?_⟩
  · rw [hsound.done_of_finished hfinished, List.map_map]
    exact List.map_id files
  · -- what two files are translated into is read from one file
    intro hkeeps x hx y hy output hxo hyo
    obtain ⟨-, text, hread, halone⟩ := hkeeps x hx output hxo
    obtain ⟨-, text', hread', halone'⟩ := hkeeps y hy output hyo
    rw [halone, halone', ← hread, hread']
  · intro hsame x hx output hresult
    have hagree := agree_of_alone site hsound hfinished hload hsame
    have hholds : crew.Holds b made :=
      hcrew ▸ (Crew.holds_start b made files).run site hstart hagree turns
    obtain ⟨text, hfate⟩ := fate_of_mem_done hsound hfinished hx hresult
    have hmem := (result_of_mem_done hsound hfinished hx).1
    exact ⟨(site.fate_eq_ok hmem hfate).2.1, text,
      hholds.read_of_finished site hsound hfinished hmem hfate,
      (alone_of_fate_ok site hload hmem hfate).2⟩

/-- The changes that make a directory with a route that carries one field over, and another one
with some messages. -/
def deskEdits (messages : List (Text × Text)) : List Disk.Edit :=
  [.makeDirectory "routes".toList, .makeDirectory "in".toList,
    .write "routes/r.yaml".toList (.text
      "inboundFormat: JSON\nmappings:\n  request:\n    - from: a\n      to: A\n".toList)]
    ++ messages.reverse.map (fun m => .write m.1 (.text m.2))

/-- A disk with that route and some messages. -/
def desk (messages : List (Text × Text)) : Disk :=
  (deskEdits messages).foldl Disk.edit .empty

/-- The same disk with a directory for the outputs. -/
def deskMade (messages : List (Text × Text)) : Disk :=
  (desk messages).edit (.makeDirectory "out".toList)

/-- Files that are listed by their names are the files of a batch in that order. -/
theorem inputFiles_of_sorted {names : List Text} (hlist : made.list inputs = .ok names)
    (hfiles : (names.map (Storage.join inputs)).filter made.isFile = files)
    (hsorted : files.Pairwise (fun a b => (!decide (b < a)) = true)) :
    inputFiles made inputs = .ok files := by
  unfold inputFiles
  rw [hlist]
  show Except.ok (((names.map (Storage.join inputs)).filter made.isFile).mergeSort _) = _
  rw [hfiles, List.mergeSort_of_pairwise hsorted]

/-- A batch with that route. -/
def carrier : Batch where
  now := ⟨⟨2024, 1, 1⟩, 0, 0, 0, 0⟩
  route := { Route.empty with
    id := "r".toList
    inbound := some .json
    request := [.between "a".toList "A".toList] }
  outputs := "out".toList

/-- Two messages in files with one stem. -/
def twins : List (Text × Text) :=
  [("in/a.json".toList, "\x7b\"a\": \"1\"\x7d".toList),
    ("in/a.txt".toList, "\x7b\"a\": \"2\"\x7d".toList)]

/-- Their workers, after some turns. -/
def twinCrew : Crew :=
  (Crew.start (deskMade twins) (twins.map Prod.fst)).run carrier [0, 1, 1, 0, 0, 1]

/-- Both messages are translated, and one of the translations is lost. -/
theorem batch_keeps_iff_twins :
    (∀ x ∈ twinCrew.done, x.result = .ok "out/a.xml".toList)
      ∧ ¬ ∀ x ∈ twinCrew.done, ∀ output, x.result = .ok output →
        carrier.output? x.input = some output ∧ ∃ text, twinCrew.disk.read output = .ok text
          ∧ (alone carrier (deskMade twins) "routes".toList "r".toList x.input).1.read output
            = .ok text := by
  have hdone : twinCrew.done.map (fun x => (x.input, x.result)) =
      twins.map (fun m => (m.1, .ok "out/a.xml".toList)) := by
    decide +kernel
  have hmem : ∀ m ∈ twins, Done.mk m.1 (.ok "out/a.xml".toList) ∈ twinCrew.done := by
    intro m hm
    have hpair : (m.1, Except.ok (ε := Trouble) "out/a.xml".toList)
        ∈ twinCrew.done.map (fun x => (x.input, x.result)) := by
      rw [hdone]
      exact List.mem_map_of_mem hm
    obtain ⟨x, hx, heq⟩ := List.mem_map.mp hpair
    obtain ⟨hinput, hresult⟩ := Prod.mk.inj heq
    exact hinput ▸ hresult ▸ hx
  have hlist : (deskMade twins).list "in".toList = .ok ["a.json".toList, "a.txt".toList] := by
    decide +kernel
  have hfiles : inputFiles (deskMade twins) "in".toList = .ok (twins.map Prod.fst) :=
    inputFiles_of_sorted hlist (by decide +kernel) (by decide +kernel)
  have hload : (Catalog.load (desk twins) "routes".toList "r".toList).result = .ok carrier.route := by
    decide +kernel
  have hmake : (desk twins).makeDirectory "out".toList = .ok (deskMade twins) := by
    decide +kernel
  have hprepare : prepare (desk twins) carrier.now "routes".toList "in".toList "out".toList
      "r".toList = (deskMade twins, .ok (carrier, twins.map Prod.fst)) :=
    prepare_eq_ok.mpr ⟨carrier.route, hload, hmake, hfiles, rfl⟩
  have hcrew : (Crew.start (deskMade twins) (twins.map Prod.fst)).run carrier [0, 1, 1, 0, 0, 1]
      = twinCrew := rfl
  have hapart : (deskMade twins).directoryPlace? "in".toList
      ≠ (deskMade twins).directoryPlace? "out".toList := by
    decide +kernel
  have hfinished : twinCrew.isFinished = true := by
    decide +kernel
  obtain ⟨-, -, hkeeps⟩ := batch_keeps_iff (Disk.wellFormed_edits (deskEdits twins)) hprepare
    hapart hcrew hfinished
  constructor
  · intro x hx
    have hpair : (x.input, x.result) ∈ twins.map (fun m => (m.1, .ok "out/a.xml".toList)) :=
      hdone ▸ List.mem_map_of_mem hx
    obtain ⟨m, -, heq⟩ := List.mem_map.mp hpair
    exact (Prod.mk.inj heq).2.symm
  · intro hall
    have hsame := hkeeps.mp hall _ (hmem _ List.mem_cons_self) _
      (hmem _ (List.mem_cons_of_mem _ List.mem_cons_self)) _ rfl rfl
    exact absurd hsame (by decide +kernel)

/-! ## §4. In any order. -/

/-- Two crews that are done with one batch leave the same at every place. -/
theorem node?_eq_of_finished {source target : Place} (site : Site b made inputs files source target)
    (hagree : Agree b made files) {turns turns' : List Nat} {crew crew' : Crew}
    (hcrew : (Crew.start made files).run b turns = crew)
    (hcrew' : (Crew.start made files).run b turns' = crew')
    (hfinished : crew.isFinished = true) (hfinished' : crew'.isFinished = true) (place : Place) :
    crew.disk.node? place = crew'.disk.node? place := by
  have hstart := Crew.sound_start b made files
  have hsound : crew.Sound b made files := hcrew ▸ hstart.run site turns
  have hsound' : crew'.Sound b made files := hcrew' ▸ hstart.run site turns'
  by_cases htarget : IsTarget b made files place
  · obtain ⟨input, hmem, output, text, hfate, hlocate⟩ := htarget
    have hholds := Crew.holds_start b made files
    have hhere : crew.Holds b made := hcrew ▸ hholds.run site hstart hagree turns
    have hthere : crew'.Holds b made := hcrew' ▸ hholds.run site hstart hagree turns'
    rw [hhere.node?_of_finished hsound hfinished hmem hfate hlocate,
      hthere.node?_of_finished hsound' hfinished' hmem hfate hlocate]
  · rw [hsound.kept.others place htarget, hsound'.kept.others place htarget]

/-- **The report of a batch and what it leaves do not depend on the order of its workers' turns**,
nor on that in which they end, when its files have different stems.  It accounts for every file
once. -/
theorem batch_any_order (hd : d.WellFormed)
    (hprepare : prepare d now directory inputs outputs route = (made, .ok (b, files)))
    (hapart : made.directoryPlace? inputs ≠ made.directoryPlace? outputs)
    (hstems : (files.map Storage.stem?).Nodup) :
    files.Nodup
      ∧ (∀ file, file ∈ files ↔
          ∃ name, file = Storage.join inputs name ∧ made.HasFile inputs name)
      ∧ (∀ turns : List Nat, (∀ i < files.length, 3 ≤ turns.count i) →
          ((Crew.start made files).run b turns).isFinished = true)
      ∧ ∃ last report, translateAll d now directory inputs outputs route = (last, .ok report)
        ∧ ∀ (turns : List Nat) (crew : Crew) (order : List Done),
            (Crew.start made files).run b turns = crew → crew.isFinished = true →
            order.Perm crew.done →
              batchReport order route = report
                ∧ (∀ place, crew.disk.node? place = last.node? place)
                ∧ (order.map Done.input).Perm files
                ∧ ∃ translated failed, Accounts order route report translated failed := by
  obtain ⟨source, target, site⟩ := site_of_prepare hd hprepare hapart
  obtain ⟨r, -, hmake, hfiles, -⟩ := prepare_eq_ok.mp hprepare
  have hmade := hd.makeDirectory hmake
  have hnodup := nodup_inputFiles hmade hfiles
  have hdone : ∀ (turns : List Nat) (crew : Crew), (Crew.start made files).run b turns = crew →
      crew.isFinished = true →
        crew.done = files.map (fun input => ⟨input, (b.fate made input).map Prod.fst⟩) := by
    intro turns crew hcrew hfinished
    have hsound : crew.Sound b made files :=
      hcrew ▸ (Crew.sound_start b made files).run site turns
    exact hsound.done_of_finished hfinished
  have hstretch : ((Crew.start made files).run b (oneByOne files.length)).isFinished = true :=
    isFinished_run b made files _ (fun i hi => count_oneByOne hi)
  refine ⟨hnodup, fun file => mem_inputFiles hmade hfiles, isFinished_run b made files,
    ((Crew.start made files).run b (oneByOne files.length)).disk,
    batchReport ((Crew.start made files).run b (oneByOne files.length)).done route, ?_, ?_⟩
  · unfold translateAll
    rw [hprepare]
  · intro turns crew order hcrew hfinished horder
    have hsame : crew.done = ((Crew.start made files).run b (oneByOne files.length)).done := by
      rw [hdone turns crew hcrew hfinished, hdone _ _ rfl hstretch]
    have hinputs : crew.done.map Done.input = files := by
      rw [hdone turns crew hcrew hfinished, List.map_map]
      exact List.map_id files
    have hperm : (order.map Done.input).Perm files := hinputs ▸ horder.map Done.input
    have hreport : batchReport order route = batchReport crew.done route :=
      batchReport_perm (hperm.nodup_iff.mpr hnodup) horder route
    rw [← hsame]
    refine ⟨hreport, ?_, hperm, translatedFiles order, failures order, ?_⟩
    · exact node?_eq_of_finished site (agree_of_stems site hstems) hcrew rfl hfinished hstretch
    · rw [← hreport]
      exact batchReport_accounts order route

/-- A message that can be translated, and a text that is none. -/
def mixed : List (Text × Text) :=
  [("in/a.json".toList, "\x7b\"a\": \"1\"\x7d".toList), ("in/b.json".toList, "\x7b".toList)]

/-- Their workers, of which the second one ends first. -/
def mixedCrew : Crew :=
  (Crew.start (deskMade mixed) (mixed.map Prod.fst)).run carrier [1, 0, 0, 0]

/-- The report does not show which worker ended first. -/
theorem batch_any_order_mixed :
    ∃ last, translateAll (desk mixed) carrier.now "routes".toList "in".toList "out".toList
        "r".toList = (last, .ok (batchReport mixedCrew.done.reverse "r".toList))
      ∧ mixedCrew.disk.node? ["out".toList, "a.xml".toList]
        = last.node? ["out".toList, "a.xml".toList] := by
  have hlist : (deskMade mixed).list "in".toList = .ok ["a.json".toList, "b.json".toList] := by
    decide +kernel
  have hfiles : inputFiles (deskMade mixed) "in".toList = .ok (mixed.map Prod.fst) :=
    inputFiles_of_sorted hlist (by decide +kernel) (by decide +kernel)
  have hload : (Catalog.load (desk mixed) "routes".toList "r".toList).result = .ok carrier.route := by
    decide +kernel
  have hmake : (desk mixed).makeDirectory "out".toList = .ok (deskMade mixed) := by
    decide +kernel
  have hprepare : prepare (desk mixed) carrier.now "routes".toList "in".toList "out".toList
      "r".toList = (deskMade mixed, .ok (carrier, mixed.map Prod.fst)) :=
    prepare_eq_ok.mpr ⟨carrier.route, hload, hmake, hfiles, rfl⟩
  have hapart : (deskMade mixed).directoryPlace? "in".toList
      ≠ (deskMade mixed).directoryPlace? "out".toList := by
    decide +kernel
  have hstems : ((mixed.map Prod.fst).map Storage.stem?).Nodup := by
    decide +kernel
  have hcrew : (Crew.start (deskMade mixed) (mixed.map Prod.fst)).run carrier [1, 0, 0, 0]
      = mixedCrew := rfl
  have hfinished : mixedCrew.isFinished = true := by
    decide +kernel
  obtain ⟨-, -, -, last, report, htranslate, hany⟩ :=
    batch_any_order (Disk.wellFormed_edits (deskEdits mixed)) hprepare hapart hstems
  obtain ⟨hreport, hdisk, -⟩ := hany [1, 0, 0, 0] mixedCrew mixedCrew.done.reverse hcrew
    hfinished (List.reverse_perm _)
  exact ⟨last, hreport ▸ htranslate, hdisk _⟩

end Crosswalk.Command
