/-
  Crosswalk.Proofs.Command.Crew
  ──────────────────────────────────────
  **WORKERS THAT TAKE TURNS IN ANY ORDER.**

  What becomes of the job of a file (`fate`) can be told before the first
  turn: no worker reads what another one writes, and whether a file can be
  opened for writing does not change.  What the written files hold can be
  told as well, as long as no two workers write different texts into one.

    • `Sound`: what is so after every turn, whatever is written,
    • `Holds`: what the written files hold meanwhile,
    • `done_of_finished`, `node?_of_finished`: what a batch leaves behind,
    • `isFinished_run`: three turns of every worker are enough.
-/
import Crosswalk.Command.Batch
import Crosswalk.Proofs.Storage.Change

namespace Crosswalk.Command

open Storage (Disk IsEntryName Place Content)

variable {b : Batch} {m d : Disk} {inputs input output text name : Text} {files : List Text}
  {place : Place} {stage : Stage} {c : Crew}

/-! ## §1. Where a batch works. -/

/-- The name of the file that a file is translated into, among the entries of its directory. -/
def outputName? (input : Text) : Option Text :=
  (Storage.stem? input).map (· ++ ".xml".toList)

theorem Batch.output?_eq (b : Batch) (input : Text) :
    b.output? input = (outputName? input).map (Storage.join b.outputs) := by
  unfold Batch.output? outputName?
  rw [Option.map_map]
  rfl

/-- **Every entry of a directory has a file that it is translated into.** -/
theorem exists_outputName (directory : Text) (h : IsEntryName name) :
    ∃ n, outputName? (Storage.join directory name) = some n ∧ IsEntryName n := by
  have hstem : Storage.stem? (Storage.join directory name)
      = some (Storage.splitExtension name).1 := by
    unfold Storage.stem?
    rw [Storage.entryName?_join directory h]
    rfl
  refine ⟨(Storage.splitExtension name).1 ++ ".xml".toList, by rw [outputName?, hstem]; rfl, ?_⟩
  have hplain : (Storage.splitExtension name).1 ≠ [] ∧ '/' ∉ (Storage.splitExtension name).1 := by
    cases hsplit : Storage.splitExtension name with
    | mk stem extension =>
        cases extension with
        | some extension =>
            obtain ⟨rfl, hne, -⟩ := Storage.splitExtension_eq_some.mp hsplit
            exact ⟨hne, fun hmem => h.flat (List.mem_append_left _ hmem)⟩
        | none =>
            have hwhole : stem = name := by
              unfold Storage.splitExtension at hsplit
              split at hsplit
              · split at hsplit
                · exact (congrArg Prod.fst hsplit).symm
                · cases hsplit
              · exact (congrArg Prod.fst hsplit).symm
            exact hwhole ▸ ⟨h.ne_nil, h.flat⟩
  refine Storage.isEntryName_of_stem ?_ hplain.1 (by decide)
  intro hmem
  obtain hmem | hmem := List.mem_append.mp hmem
  · exact hplain.2 hmem
  · exact absurd hmem (by decide)

/-- A batch before its first turn: its files are in one directory, its outputs go to another. -/
structure Site (b : Batch) (m : Disk) (inputs : Text) (files : List Text)
    (source target : Place) : Prop where
  sourceAt : m.directoryPlace? inputs = some source
  targetAt : m.directoryPlace? b.outputs = some target
  apart : source ≠ target
  files : ∀ file ∈ files, ∃ name, file = Storage.join inputs name ∧ IsEntryName name
    ∧ m.isFile file = true

/-! ## §2. Fates. -/

/-- What becomes of the job of a file: the file that is written and its text, or a trouble. -/
def Batch.fate (b : Batch) (m : Disk) (input : Text) : Except Trouble (Text × Text) :=
  match b.translate m input with
  | .error t => .error t
  | .ok text =>
    match b.output? input with
    | none => .error (.plain ("cannot name output for ".toList ++ input))
    | some output =>
      match m.write output (.text []) with
      | .error e => .error (.withFile "failed to write" output (.ofDisk e))
      | .ok _ => .ok (output, text)

/-- A place where a file of the batch is written. -/
def IsTarget (b : Batch) (m : Disk) (files : List Text) (q : Place) : Prop :=
  ∃ input ∈ files, ∃ output text, b.fate m input = .ok (output, text) ∧ m.locate output = .ok q

section

variable {source target : Place} (site : Site b m inputs files source target)

include site

/-- A file that is written has a name in the directory of the outputs, and is no directory. -/
theorem Site.fate_eq_ok (hmem : input ∈ files) (h : b.fate m input = .ok (output, text)) :
    b.translate m input = .ok text ∧ b.output? input = some output
      ∧ ∃ n, IsEntryName n ∧ Text.byteSize n ≤ Disk.longestPart
        ∧ output = Storage.join b.outputs n ∧ m.node? (target ++ [n]) ≠ some .directory := by
  obtain ⟨name, rfl, hname, -⟩ := site.files input hmem
  obtain ⟨n, hn, hentry⟩ := exists_outputName inputs hname
  unfold Batch.fate at h
  split at h
  · cases h
  · rename_i translated htranslate
    rw [b.output?_eq, hn, Option.map_some] at h
    simp only [Disk.write_join site.targetAt hentry] at h
    by_cases hlong : Disk.longestPart < Text.byteSize n
    · rw [if_pos hlong] at h
      cases h
    · rw [if_neg hlong] at h
      by_cases hdir : m.node? (target ++ [n]) = some .directory
      · rw [if_pos hdir] at h
        cases h
      · rw [if_neg hdir] at h
        obtain ⟨rfl, rfl⟩ := Prod.mk.inj (Except.ok.inj h)
        exact ⟨htranslate, by rw [b.output?_eq, hn]; rfl, n, hentry, Nat.le_of_not_lt hlong, rfl,
          hdir⟩

/-- Where a file is written. -/
theorem Site.locate_output (hmem : input ∈ files) (h : b.fate m input = .ok (output, text)) :
    ∃ n, IsEntryName n ∧ Text.byteSize n ≤ Disk.longestPart ∧ output = Storage.join b.outputs n
      ∧ m.locate output = .ok (target ++ [n]) ∧ m.node? (target ++ [n]) ≠ some .directory := by
  obtain ⟨-, -, n, hentry, hfits, rfl, hdir⟩ := site.fate_eq_ok hmem h
  refine ⟨n, hentry, hfits, rfl, ?_, hdir⟩
  rw [Disk.locate_join site.targetAt hentry, if_neg (Nat.not_lt.mpr hfits)]

/-- Files that are written at one place have one name. -/
theorem Site.output_unique {input' output' text' : Text} (hmem : input ∈ files)
    (hmem' : input' ∈ files) (h : b.fate m input = .ok (output, text))
    (h' : b.fate m input' = .ok (output', text')) (hplace : m.locate output = .ok place)
    (hplace' : m.locate output' = .ok place) : output = output' := by
  obtain ⟨n, -, -, rfl, hn, -⟩ := site.locate_output hmem h
  obtain ⟨n', -, -, rfl, hn', -⟩ := site.locate_output hmem' h'
  rw [hn] at hplace
  rw [hn'] at hplace'
  obtain rfl := Except.ok.inj hplace
  have hlast := List.append_cancel_left (Except.ok.inj hplace')
  rw [List.singleton_inj.mp hlast]

/-- No file is written where a file of the batch is read. -/
theorem Site.not_target (name : Text) : ¬ IsTarget b m files (source ++ [name]) := by
  intro ⟨input, hmem, output, text, hfate, hlocate⟩
  obtain ⟨n, -, -, -, hn, -⟩ := site.locate_output hmem hfate
  rw [hn] at hlocate
  exact site.apart (List.append_inj' (Except.ok.inj hlocate) rfl).1.symm

/-- A place where a file is written is none of those that are always there. -/
theorem Site.isBase_target (hmem : input ∈ files) (h : b.fate m input = .ok (output, text))
    (hlocate : m.locate output = .ok place) : Disk.isBase place = false := by
  obtain ⟨n, hentry, -, -, hn, -⟩ := site.locate_output hmem h
  rw [hn] at hlocate
  exact Except.ok.inj hlocate ▸ Disk.isBase_concat hentry target

end

/-! ## §3. What a batch leaves as it is. -/

/-- A disk on which a batch has written some of its files. -/
structure Kept (b : Batch) (m : Disk) (files : List Text) (d : Disk) : Prop where
  directories : ∀ q, d.node? q = some .directory ↔ m.node? q = some .directory
  others : ∀ q, ¬ IsTarget b m files q → d.node? q = m.node? q

theorem Kept.refl (b : Batch) (m : Disk) (files : List Text) : Kept b m files m :=
  ⟨fun _ => Iff.rfl, fun _ _ => rfl⟩

section

variable {source target : Place} (site : Site b m inputs files source target)

include site

/-- A written file changes one of the places where files are written. -/
theorem Kept.put (h : Kept b m files d) (hmem : input ∈ files)
    (hfate : b.fate m input = .ok (output, text)) (hlocate : m.locate output = .ok place)
    (content : Content) : Kept b m files (d.put place (.file content)) := by
  have hput := fun q => Disk.node?_put (site.isBase_target hmem hfate hlocate) d (.file content) q
  have hno : m.node? place ≠ some .directory := by
    obtain ⟨n, -, -, -, hn, hdir⟩ := site.locate_output hmem hfate
    rw [hn] at hlocate
    exact Except.ok.inj hlocate ▸ hdir
  refine ⟨?_, ?_⟩
  · intro q
    rw [hput]
    by_cases hq : q = place
    · subst hq
      rw [if_pos rfl]
      constructor
      · intro hfile
        cases hfile
      · intro hdir
        exact absurd hdir hno
    · rw [if_neg hq]
      exact h.directories q
  · intro q hq
    have hne : q ≠ place := by
      rintro rfl
      exact hq ⟨input, hmem, output, text, hfate, hlocate⟩
    rw [hput, if_neg hne]
    exact h.others q hq

/-- **Files are translated into what they would be translated into before the first turn.** -/
theorem Kept.translate_eq (h : Kept b m files d) (hmem : input ∈ files) :
    b.translate d input = b.translate m input := by
  obtain ⟨name, rfl, hname, hfile⟩ := site.files input hmem
  have hsource := Disk.directoryPlace?_mono (fun q => (h.directories q).mpr) site.sourceAt
  have hentry : m.entry? inputs name = d.entry? inputs name := by
    rw [Disk.entry?_eq site.sourceAt, Disk.entry?_eq hsource]
    exact (h.others _ (site.not_target name)).symm
  unfold Batch.translate
  rw [← Disk.read_join_congr hname hfile hentry]

/-- **A file can be opened when it could be opened before the first turn**, and is emptied by
that. -/
theorem Kept.write_eq (h : Kept b m files d) (hname : IsEntryName name) (content : Content) :
    (∀ e, m.write (Storage.join b.outputs name) content = .error e →
        d.write (Storage.join b.outputs name) content = .error e)
      ∧ (∀ next, m.write (Storage.join b.outputs name) content = .ok next →
        d.write (Storage.join b.outputs name) content
          = .ok (d.put (target ++ [name]) (.file content))) := by
  have htarget := Disk.directoryPlace?_mono (fun q => (h.directories q).mpr) site.targetAt
  rw [Disk.write_join site.targetAt hname, Disk.write_join htarget hname]
  simp only [h.directories]
  by_cases hlong : Disk.longestPart < Text.byteSize name
  · simp [hlong]
  · by_cases hdir : m.node? (target ++ [name]) = some .directory
    · simp [hlong, hdir]
    · simp [hlong, hdir]

end

/-! ## §4. Steps of a job. -/

namespace Stage

/-- The file that a job has opened. -/
def output? : Stage → Option Text
  | opened output _ => some output
  | finished (.ok output) => some output
  | _ => none

/-- The file that a job writes is open. -/
def isOpen : Stage → Bool
  | opened .. => true
  | _ => false

/-- The job goes the way to its fate. -/
def Follows (b : Batch) (m : Disk) (input : Text) : Stage → Prop
  | waiting => True
  | translated text => b.translate m input = .ok text
  | opened output text => b.fate m input = .ok (output, text)
  | finished result => result = (b.fate m input).map Prod.fst

end Stage

/-- What one step of a job can do to a disk. -/
inductive Moves (b : Batch) (m d : Disk) (input : Text) : Stage → Disk → Stage → Prop
  /-- Nothing is written. -/
  | quiet {before after : Stage} (hbefore : before.isOpen = false) (hafter : after.isOpen = false)
      (hsame : after.output? = before.output?) : Moves b m d input before d after
  /-- A file is opened, and emptied. -/
  | opens {output text : Text} {place : Place} (hfate : b.fate m input = .ok (output, text))
      (hlocate : m.locate output = .ok place) :
      Moves b m d input (.translated text) (d.put place (.file (.text []))) (.opened output text)
  /-- The text is written into the open file. -/
  | fills {output text : Text} {place : Place} {content : Content}
      (hfate : b.fate m input = .ok (output, text)) (hlocate : m.locate output = .ok place)
      (hfile : d.node? place = some (.file content)) :
      Moves b m d input (.opened output text) (d.put place (.file (content.overlay text)))
        (.finished (.ok output))

section

variable {source target : Place} (site : Site b m inputs files source target)

include site

/-- **Every step of a job is one of these, and goes on towards its fate.** -/
theorem advance_moves (hkept : Kept b m files d) (hmem : input ∈ files)
    (hfollows : stage.Follows b m input)
    (hthere : ∀ output text place, stage = .opened output text → m.locate output = .ok place →
      ∃ content, d.node? place = some (.file content)) :
    Moves b m d input stage (b.advance d input stage).1 (b.advance d input stage).2
      ∧ (b.advance d input stage).2.Follows b m input := by
  cases stage with
  | waiting =>
      have hstep : b.advance d input .waiting =
          match b.translate m input with
          | .error t => (d, .finished (.error t))
          | .ok text => (d, .translated text) := by
        rw [← hkept.translate_eq site hmem]
        rfl
      rw [hstep]
      cases htranslate : b.translate m input with
      | error t =>
          refine ⟨.quiet rfl rfl rfl, ?_⟩
          show Except.error t = (b.fate m input).map Prod.fst
          unfold Batch.fate
          rw [htranslate]
          rfl
      | ok text => exact ⟨.quiet rfl rfl rfl, htranslate⟩
  | translated text =>
      have htranslate : b.translate m input = .ok text := hfollows
      obtain ⟨name, rfl, hname, -⟩ := site.files input hmem
      obtain ⟨n, hn, hentry⟩ := exists_outputName inputs hname
      have houtput : b.output? (Storage.join inputs name) = some (Storage.join b.outputs n) := by
        rw [b.output?_eq, hn, Option.map_some]
      have hfate : b.fate m (Storage.join inputs name) =
          match m.write (Storage.join b.outputs n) (.text []) with
          | .error e => .error (.withFile "failed to write" (Storage.join b.outputs n) (.ofDisk e))
          | .ok _ => .ok (Storage.join b.outputs n, text) := by
        unfold Batch.fate
        rw [htranslate, houtput]
      obtain ⟨hfails, hopens⟩ := hkept.write_eq site hentry (.text [])
      cases hwrite : m.write (Storage.join b.outputs n) (.text []) with
      | error e =>
          have hstep : b.advance d (Storage.join inputs name) (.translated text) = (d, .finished
              (.error (.withFile "failed to write" (Storage.join b.outputs n) (.ofDisk e)))) := by
            unfold Batch.advance
            simp only [houtput, hfails e hwrite]
          rw [hwrite] at hfate
          rw [hstep]
          refine ⟨.quiet rfl rfl rfl, ?_⟩
          show Except.error _ = (b.fate m _).map Prod.fst
          rw [hfate]
          rfl
      | ok next =>
          have hstep : b.advance d (Storage.join inputs name) (.translated text) =
              (d.put (target ++ [n]) (.file (.text [])),
                .opened (Storage.join b.outputs n) text) := by
            unfold Batch.advance
            simp only [houtput, hopens next hwrite]
          rw [hwrite] at hfate
          rw [hstep]
          obtain ⟨n', hentry', hfits, hjoin, hlocate, -⟩ := site.locate_output hmem hfate
          rw [Disk.locate_join site.targetAt hentry] at hlocate
          have hplace : m.locate (Storage.join b.outputs n) = .ok (target ++ [n]) := by
            rw [Disk.locate_join site.targetAt hentry]
            split at hlocate
            · cases hlocate
            · rename_i hshort
              rw [if_neg hshort]
          exact ⟨.opens hfate hplace, hfate⟩
  | opened output text =>
      have hfate : b.fate m input = .ok (output, text) := hfollows
      obtain ⟨n, hentry, hfits, rfl, hlocate, -⟩ := site.locate_output hmem hfate
      obtain ⟨content, hfile⟩ := hthere _ text _ rfl hlocate
      have htarget := Disk.directoryPlace?_mono (fun q => (hkept.directories q).mpr) site.targetAt
      have hstep : b.advance d input (.opened (Storage.join b.outputs n) text) =
          (d.put (target ++ [n]) (.file (content.overlay text)),
            .finished (.ok (Storage.join b.outputs n))) := by
        rw [← Disk.overwrite_join htarget hentry hfits hfile]
        rfl
      rw [hstep]
      refine ⟨.fills hfate hlocate hfile, ?_⟩
      show Except.ok _ = (b.fate m input).map Prod.fst
      rw [hfate]
      rfl
  | finished result => exact ⟨.quiet rfl rfl rfl, hfollows⟩

end

/-! ## §5. Turns. -/

/-- What is so after every turn of a crew. -/
structure Crew.Sound (b : Batch) (m : Disk) (files : List Text) (c : Crew) : Prop where
  inputs : c.workers.map Worker.input = files
  follows : ∀ w ∈ c.workers, w.stage.Follows b m w.input
  kept : Kept b m files c.disk
  /-- Open files are there. -/
  there : ∀ w ∈ c.workers, ∀ output text place, w.stage = .opened output text →
    m.locate output = .ok place → ∃ content, c.disk.node? place = some (.file content)

theorem Crew.sound_start (b : Batch) (m : Disk) (files : List Text) :
    (Crew.start m files).Sound b m files := by
  have hwaiting : ∀ w ∈ (Crew.start m files).workers, w.stage = .waiting := by
    intro w hw
    obtain ⟨file, -, rfl⟩ := List.mem_map.mp hw
    rfl
  refine ⟨?_, ?_, Kept.refl b m files, ?_⟩
  · unfold Crew.start
    rw [List.map_map]
    exact List.map_id files
  · intro w hw
    rw [hwaiting w hw]
    trivial
  · intro w hw output text place hstage
    rw [hwaiting w hw] at hstage
    cases hstage

/-- Another worker than the one whose turn it was is as before. -/
theorem mem_set_of_ne {workers : List Worker} {i : Nat} {v w w' : Worker}
    (hi : workers[i]? = some w) (hv : v ∈ workers) (hne : v ≠ w) : v ∈ workers.set i w' := by
  obtain ⟨j, hj⟩ := List.mem_iff_getElem?.mp hv
  have hij : i ≠ j := by
    rintro rfl
    rw [hi] at hj
    exact hne (Option.some.inj hj).symm
  apply List.mem_iff_getElem?.mpr
  exact ⟨j, by rw [List.getElem?_set_ne hij, hj]⟩

/-- A turn of a worker: a step of its job, and nothing else. -/
theorem Crew.turn_eq (b : Batch) (c : Crew) {i : Nat} {w : Worker} (hi : c.workers[i]? = some w) :
    c.turn b i = ⟨(b.advance c.disk w.input w.stage).1,
      c.workers.set i ⟨w.input, (b.advance c.disk w.input w.stage).2⟩⟩ := by
  unfold Crew.turn
  rw [hi]

section

variable {source target : Place} (site : Site b m inputs files source target)

include site

/-- What a step of a worker is, in a crew for which all is so. -/
theorem Crew.Sound.moves (h : c.Sound b m files) {w : Worker} (hw : w ∈ c.workers) :
    Moves b m c.disk w.input w.stage (b.advance c.disk w.input w.stage).1
        (b.advance c.disk w.input w.stage).2
      ∧ (b.advance c.disk w.input w.stage).2.Follows b m w.input :=
  advance_moves site h.kept (h.inputs ▸ List.mem_map_of_mem hw) (h.follows w hw)
    (h.there w hw)

/-- **It is so after one more turn.** -/
theorem Crew.Sound.turn (h : c.Sound b m files) (i : Nat) : (c.turn b i).Sound b m files := by
  cases hi : c.workers[i]? with
  | none =>
      unfold Crew.turn
      rw [hi]
      exact h
  | some w =>
      have hw : w ∈ c.workers := List.mem_of_getElem? hi
      have hmem : w.input ∈ files := h.inputs ▸ List.mem_map_of_mem hw
      obtain ⟨hmoves, hfollows⟩ := h.moves site hw
      rw [c.turn_eq b hi]
      obtain ⟨file, before⟩ := w
      simp only at hmoves hfollows hmem ⊢
      generalize (b.advance c.disk file before).1 = next at hmoves ⊢
      generalize (b.advance c.disk file before).2 = after at hmoves hfollows ⊢
      refine ⟨?_, ?_, ?_, ?_⟩
      · show (c.workers.set i ⟨file, after⟩).map Worker.input = files
        rw [← h.inputs, List.map_set]
        have hsame : (c.workers.map Worker.input)[i]? = some file := by
          rw [List.getElem?_map, hi]
          rfl
        obtain ⟨hlt, hget⟩ := List.getElem?_eq_some_iff.mp hsame
        show (c.workers.map Worker.input).set i file = _
        rw [← hget, List.set_getElem_self]
      · intro v hv
        obtain hv | rfl := List.mem_or_eq_of_mem_set hv
        · exact h.follows v hv
        · exact hfollows
      · cases hmoves with
        | quiet hbefore hafter hsame => exact h.kept
        | opens hfate hlocate => exact h.kept.put site hmem hfate hlocate _
        | fills hfate hlocate hfile => exact h.kept.put site hmem hfate hlocate _
      · -- an open file of another worker stays a file, whatever this one puts somewhere
        have hstays : ∀ {place : Place} {content : Content}, Disk.isBase place = false →
            ∀ {q : Place}, (∃ old, c.disk.node? q = some (.file old)) →
              ∃ new, (c.disk.put place (.file content)).node? q = some (.file new) := by
          intro place content hbase q ⟨old, hold⟩
          rw [Disk.node?_put hbase]
          by_cases hq : q = place
          · exact ⟨content, if_pos hq⟩
          · exact ⟨old, by rw [if_neg hq, hold]⟩
        intro v hv output text place hstage hlocate'
        obtain hv | rfl := List.mem_or_eq_of_mem_set hv
        · have hold := h.there v hv output text place hstage hlocate'
          cases hmoves with
          | quiet hbefore hafter hsame => exact hold
          | opens hfate hlocate => exact hstays (site.isBase_target hmem hfate hlocate) hold
          | fills hfate hlocate hfile => exact hstays (site.isBase_target hmem hfate hlocate) hold
        · obtain rfl : after = .opened output text := hstage
          cases hmoves with
          | quiet hbefore hafter hsame => cases hafter
          | opens hfate hlocate =>
              obtain rfl := Except.ok.inj (hlocate.symm.trans hlocate')
              refine ⟨.text [], ?_⟩
              rw [Disk.node?_put (site.isBase_target hmem hfate hlocate), if_pos rfl]

/-- **It is so after any turns.** -/
theorem Crew.Sound.run (h : c.Sound b m files) (turns : List Nat) :
    (c.run b turns).Sound b m files := by
  induction turns generalizing c with
  | nil => exact h
  | cons i turns ih => exact ih (h.turn site i)

end

/-! ## §6. What the written files hold. -/

/-- No two jobs write different texts into one file. -/
def Agree (b : Batch) (m : Disk) (files : List Text) : Prop :=
  ∀ input ∈ files, ∀ input' ∈ files, ∀ output text text',
    b.fate m input = .ok (output, text) → b.fate m input' = .ok (output, text') → text = text'

/-- A written file holds its text, or it is empty and some worker has it open. -/
def HeldAt (d : Disk) (workers : List Worker) (output text : Text) (place : Place) : Prop :=
  d.node? place = some (.file (.text text))
    ∨ (d.node? place = some (.file (.text []))
      ∧ ∃ v ∈ workers, ∃ text', v.stage = .opened output text')

/-- A turn of a worker that does not have the file open, and puts nothing in its place. -/
theorem HeldAt.turn {d' : Disk} {workers : List Worker} {i : Nat} {w w' : Worker}
    (h : HeldAt d workers output text place) (hi : workers[i]? = some w)
    (hclosed : ∀ text', w.stage ≠ .opened output text')
    (hsame : d'.node? place = d.node? place) :
    HeldAt d' (workers.set i w') output text place := by
  obtain hholds | ⟨hempty, v, hv, text', hopen⟩ := h
  · exact .inl (hsame.trans hholds)
  · refine .inr ⟨hsame.trans hempty, v, mem_set_of_ne hi hv ?_, text', hopen⟩
    rintro rfl
    exact hclosed text' hopen

/-- Every file that a worker has opened is held. -/
def Crew.Holds (b : Batch) (m : Disk) (c : Crew) : Prop :=
  ∀ w ∈ c.workers, ∀ output text place, w.stage.output? = some output →
    b.fate m w.input = .ok (output, text) → m.locate output = .ok place →
      HeldAt c.disk c.workers output text place

theorem Crew.holds_start (b : Batch) (m : Disk) (files : List Text) :
    (Crew.start m files).Holds b m := by
  intro w hw output text place hout
  obtain ⟨file, -, rfl⟩ := List.mem_map.mp hw
  cases hout

section

variable {source target : Place} (site : Site b m inputs files source target)

include site

/-- **Every file that was opened is held after one more turn.** -/
theorem Crew.Holds.turn (h : c.Holds b m) (hsound : c.Sound b m files) (hagree : Agree b m files)
    (i : Nat) : (c.turn b i).Holds b m := by
  cases hi : c.workers[i]? with
  | none =>
      unfold Crew.turn
      rw [hi]
      exact h
  | some w =>
      have hw : w ∈ c.workers := List.mem_of_getElem? hi
      have hmem : ∀ v ∈ c.workers, v.input ∈ files := fun v hv =>
        hsound.inputs ▸ List.mem_map_of_mem hv
      obtain ⟨hmoves, -⟩ := hsound.moves site hw
      rw [c.turn_eq b hi]
      obtain ⟨file, before⟩ := w
      have hfile : file ∈ files := hmem _ hw
      have hhere := h _ hw
      simp only at hmoves hhere ⊢
      generalize (b.advance c.disk file before).1 = next at hmoves ⊢
      generalize (b.advance c.disk file before).2 = after at hmoves ⊢
      intro v hv output text place hout hfate hlocate
      have hinput : v.input ∈ files := by
        obtain hv | rfl := List.mem_or_eq_of_mem_set hv
        · exact hmem v hv
        · exact hfile
      cases hmoves with
      | quiet hbefore hafter hsame =>
          have hheld : HeldAt c.disk c.workers output text place := by
            obtain hv | rfl := List.mem_or_eq_of_mem_set hv
            · exact h v hv output text place hout hfate hlocate
            · exact hhere output text place (hsame ▸ hout) hfate hlocate
          refine hheld.turn hi (fun text' hopen => ?_) rfl
          rw [show before = _ from hopen] at hbefore
          cases hbefore
      | @opens o t q hfate' hlocate' =>
          have hput := Disk.node?_put (site.isBase_target hfile hfate' hlocate') c.disk
            (.file (.text [])) place
          by_cases hplace : place = q
          · -- the file was emptied just now
            subst hplace
            obtain rfl := site.output_unique hinput hfile hfate hfate' hlocate hlocate'
            refine .inr ⟨hput.trans (if_pos rfl), ⟨file, .opened output t⟩, ?_, t, rfl⟩
            exact List.mem_set (List.getElem?_eq_some_iff.mp hi).1 _
          · rw [if_neg hplace] at hput
            obtain hv | rfl := List.mem_or_eq_of_mem_set hv
            · exact (h v hv output text place hout hfate hlocate).turn hi
                (fun text' hopen => by cases hopen) hput
            · obtain rfl : o = output := Option.some.inj hout
              exact absurd (Except.ok.inj (hlocate.symm.trans hlocate')) hplace
      | @fills o t q content hfate' hlocate' hthere =>
          have hput := Disk.node?_put (site.isBase_target hfile hfate' hlocate') c.disk
            (.file (content.overlay t)) place
          by_cases hplace : place = q
          · -- the file was empty, or held this very text: all jobs that open it agree
            have hfilled : content.overlay t = .text t := by
              obtain hholds | ⟨hempty, -⟩ := hhere o t q rfl hfate' hlocate'
              · rw [hthere] at hholds
                obtain rfl : content = .text t := by simpa using hholds
                exact Content.overlay_self t
              · rw [hthere] at hempty
                obtain rfl : content = .text [] := by simpa using hempty
                exact Content.overlay_empty t
            subst hplace
            obtain rfl := site.output_unique hinput hfile hfate hfate' hlocate hlocate'
            obtain rfl := hagree _ hinput _ hfile _ _ _ hfate hfate'
            refine .inl (hput.trans ?_)
            rw [if_pos rfl, hfilled]
          · rw [if_neg hplace] at hput
            obtain hv | rfl := List.mem_or_eq_of_mem_set hv
            · refine (h v hv output text place hout hfate hlocate).turn hi
                (fun text' hopen => ?_) hput
              obtain ⟨rfl, rfl⟩ := Stage.opened.inj hopen
              exact hplace (Except.ok.inj (hlocate.symm.trans hlocate'))
            · obtain rfl : o = output := Option.some.inj hout
              exact absurd (Except.ok.inj (hlocate.symm.trans hlocate')) hplace

/-- **Every file that was opened is held after any turns.** -/
theorem Crew.Holds.run (h : c.Holds b m) (hsound : c.Sound b m files) (hagree : Agree b m files)
    (turns : List Nat) : (c.run b turns).Holds b m := by
  induction turns generalizing c with
  | nil => exact h
  | cons i turns ih => exact ih (h.turn site hsound hagree i) (hsound.turn site i)

end

/-! ## §7. What a batch leaves behind. -/

theorem Worker.stage_of_done {w : Worker} (h : w.done?.isSome = true) :
    ∃ result, w.stage = .finished result := by
  unfold Worker.done? at h
  split at h
  · rename_i result hstage
    exact ⟨result, hstage⟩
  · cases h

/-- A worker that is done is so with the fate of its file. -/
theorem Crew.Sound.stage_of_finished (h : c.Sound b m files) (hfinished : c.isFinished = true)
    {w : Worker} (hw : w ∈ c.workers) :
    w.stage = .finished ((b.fate m w.input).map Prod.fst) := by
  obtain ⟨result, hstage⟩ := Worker.stage_of_done (List.all_eq_true.mp hfinished w hw)
  have hfollows := h.follows w hw
  rw [hstage] at hfollows ⊢
  rw [show result = _ from hfollows]

/-- **All files get their fates**, in whatever order the workers took their turns. -/
theorem Crew.Sound.done_of_finished (h : c.Sound b m files) (hfinished : c.isFinished = true) :
    c.done = files.map (fun input => ⟨input, (b.fate m input).map Prod.fst⟩) := by
  unfold Crew.done
  rw [← h.inputs, List.map_map, ← List.filterMap_eq_map]
  apply List.filterMap_congr
  intro w hw
  unfold Worker.done?
  rw [h.stage_of_finished hfinished hw]
  rfl

/-- **Every written file holds its text in the end**, when no two jobs write different ones. -/
theorem Crew.Holds.node?_of_finished (h : c.Holds b m) (hsound : c.Sound b m files)
    (hfinished : c.isFinished = true) (hmem : input ∈ files)
    (hfate : b.fate m input = .ok (output, text)) (hlocate : m.locate output = .ok place) :
    c.disk.node? place = some (.file (.text text)) := by
  obtain ⟨w, hw, rfl⟩ := List.mem_map.mp (hsound.inputs ▸ hmem)
  have hout : w.stage.output? = some output := by
    rw [hsound.stage_of_finished hfinished hw, hfate]
    rfl
  obtain hholds | ⟨-, v, hv, text', hopen⟩ := h w hw output text place hout hfate hlocate
  · exact hholds
  · rw [hsound.stage_of_finished hfinished hv] at hopen
    cases hopen

/-! ## §8. Enough turns. -/

namespace Stage

/-- The number of steps that a job can still take. -/
def left : Stage → Nat
  | waiting => 3
  | translated _ => 2
  | opened .. => 1
  | finished _ => 0

end Stage

/-- **Every step of a job is one step less.** -/
theorem left_advance (b : Batch) (d : Disk) (input : Text) (stage : Stage) :
    (b.advance d input stage).2.left ≤ stage.left - 1 := by
  cases stage with
  | waiting =>
      unfold Batch.advance
      cases b.translate d input with
      | error t => exact Nat.zero_le _
      | ok text => exact Nat.le_refl 2
  | translated text =>
      unfold Batch.advance
      cases b.output? input with
      | none => exact Nat.zero_le _
      | some output =>
          simp only
          cases d.write output (.text []) with
          | error e => exact Nat.zero_le _
          | ok next => exact Nat.le_refl 1
  | opened output text => exact Nat.zero_le _
  | finished result => exact Nat.zero_le _

/-- A worker has at most the steps before it that its turns have not taken. -/
theorem left_run (b : Batch) (i : Nat) (turns : List Nat) : ∀ (c : Crew) (w : Worker),
    c.workers[i]? = some w →
      ∃ v, (c.run b turns).workers[i]? = some v ∧ v.stage.left ≤ w.stage.left - turns.count i := by
  induction turns with
  | nil => exact fun c w hi => ⟨w, hi, Nat.le_refl _⟩
  | cons j turns ih =>
      intro c w hi
      by_cases hj : j = i
      · subst hj
        have hnext : (c.turn b j).workers[j]?
            = some ⟨w.input, (b.advance c.disk w.input w.stage).2⟩ := by
          rw [c.turn_eq b hi]
          exact List.getElem?_set_self (List.getElem?_eq_some_iff.mp hi).1
        obtain ⟨v, hv, hleft⟩ := ih (c.turn b j) _ hnext
        have hstep := left_advance b c.disk w.input w.stage
        refine ⟨v, hv, ?_⟩
        rw [List.count_cons_self]
        simp only at hleft
        omega
      · have hnext : (c.turn b j).workers[i]? = some w := by
          unfold Crew.turn
          cases hw : c.workers[j]? with
          | none => exact hi
          | some x =>
              show (c.workers.set j _)[i]? = some w
              rw [List.getElem?_set_ne hj, hi]
        obtain ⟨v, hv, hleft⟩ := ih (c.turn b j) w hnext
        exact ⟨v, hv, by rwa [List.count_cons_of_ne hj]⟩

theorem length_run (b : Batch) (turns : List Nat) : ∀ c : Crew,
    (c.run b turns).workers.length = c.workers.length := by
  induction turns with
  | nil => exact fun c => rfl
  | cons j turns ih =>
      intro c
      have hturn : (c.turn b j).workers.length = c.workers.length := by
        unfold Crew.turn
        cases c.workers[j]? with
        | none => rfl
        | some w => exact List.length_set
      exact (ih (c.turn b j)).trans hturn

/-- **Three turns of every worker are enough.** -/
theorem isFinished_run (b : Batch) (m : Disk) (files : List Text) (turns : List Nat)
    (h : ∀ i < files.length, 3 ≤ turns.count i) :
    ((Crew.start m files).run b turns).isFinished = true := by
  apply List.all_eq_true.mpr
  intro v hv
  obtain ⟨i, hi⟩ := List.mem_iff_getElem?.mp hv
  have hlt : i < files.length := by
    have hlength : (Crew.start m files).workers.length = files.length := List.length_map _
    rw [← hlength, ← length_run b turns]
    exact (List.getElem?_eq_some_iff.mp hi).1
  have hstart : (Crew.start m files).workers[i]? = some ⟨files[i], .waiting⟩ := by
    show (files.map _)[i]? = _
    rw [List.getElem?_map, List.getElem?_eq_getElem hlt]
    rfl
  obtain ⟨v', hv', hleft⟩ := left_run b i turns (Crew.start m files) _ hstart
  obtain rfl := Option.some.inj (hi.symm.trans hv')
  have hnone : v.stage.left = 0 := by
    have hturns := h i hlt
    have hwaiting : Stage.waiting.left = 3 := rfl
    simp only at hleft
    omega
  unfold Worker.done?
  cases hstage : v.stage with
  | finished result => rfl
  | waiting => simp [hstage, Stage.left] at hnone
  | translated text => simp [hstage, Stage.left] at hnone
  | opened output text => simp [hstage, Stage.left] at hnone

/-- Workers who do their jobs at a stretch get enough turns. -/
theorem count_oneByOne {i n : Nat} (h : i < n) : 3 ≤ (oneByOne n).count i := by
  obtain ⟨front, back, hrange⟩ := List.append_of_mem (List.mem_range.mpr h)
  unfold oneByOne
  rw [hrange, List.flatMap_append, List.flatMap_cons, List.count_append, List.count_append,
    List.count_replicate_self]
  omega

end Crosswalk.Command
