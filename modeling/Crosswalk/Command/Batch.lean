/-
  Crosswalk.Command.Batch
  ──────────────────────────────────────
  **TRANSLATING ALL FILES OF A DIRECTORY.**

  Every file is a job of its own: it is read, translated, and written under
  its stem into the output directory.  Every job has its worker, and the
  workers take turns in some order; here one does its whole job after the
  other.  Jobs that fail are counted and reported, and stop no other job.
  The report lists them by their names, in whatever order the jobs were done.

  The program looks at its clock each time that an expression asks for it, so
  the jobs of one batch may see different instants.  Here the clock is held
  fixed over the whole batch: every job sees the same one.
-/
import Crosswalk.Command.Trouble

namespace Crosswalk.Command

open Storage (Disk)

/-! ## §1. Jobs. -/

/-- What all jobs share. -/
structure Batch where
  /-- What the clock shows to every job, whenever its turn comes. -/
  now : Calendar.Instant
  route : Route
  outputs : Text
  deriving DecidableEq, Repr

/-- How far the job of a file is. -/
inductive Stage
  | waiting
  /-- The file is read and translated. -/
  | translated (text : Text)
  /-- The file that it is translated into is open, and was emptied. -/
  | opened (output text : Text)
  | finished (result : Except Trouble Text)

namespace Batch

/-- Reads and translates a file. -/
def translate (b : Batch) (d : Disk) (input : Text) : Except Trouble Text :=
  match d.read input with
  | .error e => .error (.withFile "failed to read input file" input (.ofDisk e))
  | .ok content =>
    match Engine.request b.now content b.route with
    | .error e => .error (.ofUnreadable e)
    | .ok t => .ok t.text

/-- The file that a file is translated into. -/
def output? (b : Batch) (input : Text) : Option Text :=
  (Storage.stem? input).map (fun stem => Storage.join b.outputs (stem ++ ".xml".toList))

/-- Goes on with the job of a file by one step. -/
def advance (b : Batch) (d : Disk) (input : Text) : Stage → Disk × Stage
  | .waiting =>
    match b.translate d input with
    | .error t => (d, .finished (.error t))
    | .ok text => (d, .translated text)
  | .translated text =>
    match b.output? input with
    | none => (d, .finished (.error (.plain ("cannot name output for ".toList ++ input))))
    | some output =>
      match d.write output (.text []) with
      | .error e => (d, .finished (.error (.withFile "failed to write" output (.ofDisk e))))
      | .ok next => (next, .opened output text)
  | .opened output text => (d.overwrite output text, .finished (.ok output))
  | .finished result => (d, .finished result)

end Batch

/-! ## §2. Workers. -/

/-- A worker with the job of a file. -/
structure Worker where
  input : Text
  stage : Stage

/-- What became of a file. -/
structure Done where
  input : Text
  /-- The name of the written file. -/
  result : Except Trouble Text

/-- What became of the file of a worker, when the job is done. -/
def Worker.done? (w : Worker) : Option Done :=
  match w.stage with
  | .finished result => some ⟨w.input, result⟩
  | _ => none

/-- The workers of a batch, and the disk that they work on. -/
structure Crew where
  disk : Disk
  workers : List Worker

namespace Crew

/-- A worker for every file, before the first turn. -/
def start (d : Disk) (files : List Text) : Crew :=
  ⟨d, files.map (⟨·, .waiting⟩)⟩

/-- A turn of one of the workers. -/
def turn (b : Batch) (c : Crew) (i : Nat) : Crew :=
  match c.workers[i]? with
  | none => c
  | some w =>
    let (next, stage) := b.advance c.disk w.input w.stage
    ⟨next, c.workers.set i { w with stage := stage }⟩

/-- The workers after some turns. -/
def run (b : Batch) (c : Crew) (turns : List Nat) : Crew :=
  turns.foldl (turn b) c

/-- What became of the files whose jobs are done. -/
def done (c : Crew) : List Done :=
  c.workers.filterMap Worker.done?

/-- All jobs are done. -/
def isFinished (c : Crew) : Bool :=
  c.workers.all (·.done?.isSome)

end Crew

/-- The turns by which every worker does its job at a stretch, one after the other. -/
def oneByOne (workers : Nat) : List Nat :=
  (List.range workers).flatMap (List.replicate 3)

/-! ## §3. Reports. -/

/-- The trouble of a file, when it was not translated. -/
def Done.failure? (x : Done) : Option (Text × Text) :=
  match x.result with
  | .ok _ => none
  | .error t => some (x.input, t.inline)

/-- The line of a file that was not translated. -/
def failureLine (failure : Text × Text) : Text :=
  "FAILED ".toList ++ failure.1 ++ ": ".toList ++ failure.2 ++ ['\n']

/-- The files that were not translated, by their names. -/
def failures (done : List Done) : List (Text × Text) :=
  (done.filterMap Done.failure?).mergeSort (fun a b => !decide (b.1 < a.1))

/-- The last line of a report. -/
def summary (done : List Done) (route : Text) : Text :=
  "translated ".toList ++ Text.ofNat (done.length - (failures done).length) ++ " of ".toList
    ++ Text.ofNat done.length ++ " files for route ".toList ++ route ++ ['\n']

/-- The report of a batch. -/
def batchReport (done : List Done) (route : Text) : Text :=
  ((failures done).map failureLine).flatten ++ summary done route

/-! ## §4. Directories. -/

/-- The files of a directory, by their names. -/
def inputFiles (d : Disk) (inputs : Text) : Except Storage.DiskError (List Text) :=
  (d.list inputs).map (fun entries =>
    ((entries.map (Storage.join inputs)).filter d.isFile).mergeSort
      (fun a b => !decide (b < a)))

/-- Loads the route of a batch, makes the directory for its outputs, and finds the files. -/
def prepare (d : Disk) (now : Calendar.Instant) (directory inputs outputs route : Text) :
    Disk × Except Trouble (Batch × List Text) :=
  match (Catalog.load d directory route).result with
  | .error e => (d, .error (.around ("failed to load route ".toList ++ route) (.ofLoadError e)))
  | .ok r =>
    match d.makeDirectory outputs with
    | .error e =>
      (d, .error (.withFile "failed to create output directory" outputs (.ofDisk e)))
    | .ok made =>
      match inputFiles made inputs with
      | .error e => (made, .error (.withFile "failed to read input directory" inputs (.ofDisk e)))
      | .ok files => (made, .ok (⟨now, r, outputs⟩, files))

/-- Translates all files of a directory into files of another one. -/
def translateAll (d : Disk) (now : Calendar.Instant) (directory inputs outputs route : Text) :
    Disk × Except Trouble Text :=
  match prepare d now directory inputs outputs route with
  | (made, .error t) => (made, .error t)
  | (made, .ok (b, files)) =>
    let crew := (Crew.start made files).run b (oneByOne files.length)
    (crew.disk, .ok (batchReport crew.done route))

end Crosswalk.Command
