/-
  Crosswalk.Main
  ──────────────────────────────────────
  **THE PROGRAM.**

  What a command line can look at is copied onto a disk, the command line is
  run there, and what it changed is written back.
-/
import Crosswalk.Command.Run
import Std.Time.DateTime.Timestamp

namespace Crosswalk.Main

open Command (Invocation Settings Task)
open Storage (Content Disk Node Place)

/-! ## §1. Looking. -/

/-- The entries of the directory with the name, when there is one. -/
def entries? (name : Text) : IO (Option (List Text)) := do
  try
    let directory ← IO.FS.realPath (String.ofList name)
    return some ((← directory.readDir).toList.map (·.fileName.toList))
  catch _ => return none

/-- What the file with the name holds, when there is one. -/
def content? (name : Text) : IO (Option Content) := do
  try
    let bytes ← IO.FS.readBinFile (String.ofList name)
    return some (match String.fromUTF8? bytes with
      | some s => .text s.toList
      | none => .bytes bytes.toList)
  catch _ => return none

/-- What a name stands for. -/
def node? (name : Text) : IO (Option Node) := do
  if (← entries? name).isSome then return some .directory
  return (← content? name).map .file

/-- Copies what stands along the parts of a name. -/
def copyAlong (d : Disk) (here : Place) (name : Text) : List Text → IO Disk
  | [] => return d
  | part :: rest => do
    let entry := Storage.join name part
    match ← node? entry with
    | none => return d
    | some node =>
      let next := Disk.enter here part
      copyAlong (d.put next node) next entry rest

/-- Copies what stands along a name. -/
def copy (d : Disk) (name : Text) : IO Disk :=
  if Storage.isAbsolute name then
    copyAlong (d.put [Disk.root] .directory) [Disk.root] Disk.root (Storage.parts name)
  else copyAlong d [] [] (Storage.parts name)

/-- Copies what stands along each of some names. -/
def copyAll (d : Disk) (names : List Text) : IO Disk :=
  names.foldlM copy d

/-! ## §2. What a command line can look at. -/

/-- The files that a route can be in. -/
def routeFiles (directory route : Text) : List Text :=
  let id := Text.trim route
  if Catalog.isBadId id then [] else Catalog.extensions.map (Catalog.fileOf directory id)

/-- The names that a task is about, apart from the entries of directories. -/
def names (directory : Text) : Task → List Text
  | .translate input output route => input :: output.toList ++ routeFiles directory route
  | .reply input output route _ => input :: output.toList ++ routeFiles directory route
  | .parse input _ => [input]
  | .batch inputs outputs route => inputs :: outputs :: routeFiles directory route

/-- The entries of directories that a task is about. -/
def entries : Task → IO (List Text)
  | .batch inputs outputs _ => do
    let found := ((← entries? inputs).getD []).map (Storage.join inputs)
    let written := found.filterMap (fun name =>
      (Storage.stem? name).map (fun stem => Storage.join outputs (stem ++ ".xml".toList)))
    return found ++ written
  | _ => return []

/-- Copies what an invocation can look at. -/
def gather (i : Invocation) : IO Disk := do
  let d ← copyAll .empty i.settings.toList
  match i.loadSettings d with
  | .error _ => return d
  | .ok settings =>
    let d ← copyAll d (names (settings.directory i.routesDirectory) i.task)
    copyAll d (← entries i.task)

/-! ## §3. Writing back. -/

/-- The name of a place. -/
def nameOf : Place → String
  | [] => "."
  | first :: rest =>
    String.ofList (rest.foldl Storage.join first)

/-- The bytes of what a file holds. -/
def bytesOf : Content → ByteArray
  | .text s => (String.ofList s).toUTF8
  | .bytes bs => ⟨bs.toArray⟩

/-- Writes what has changed on a disk. -/
def writeBack (before after : Disk) : IO Unit :=
  after.entries.reverse.forM (fun (place, node) =>
    if before.node? place = some node then pure ()
    else match node with
      | .directory => IO.FS.createDirAll (nameOf place)
      | .file content => IO.FS.writeBinFile (nameOf place) (bytesOf content))

/-! ## §4. Running. -/

/-- The present instant. -/
def now : IO Calendar.Instant := do
  let t ← Std.Time.Timestamp.now
  let second := t.val.second.val
  let days := second / Calendar.Instant.secondsPerDay
  let rest := second % Calendar.Instant.secondsPerDay
  return .atSecond (.ofDays days) rest.toNat t.val.nano.val.toNat

/-- Runs the words of a command line, and gives the status that the program ends with. -/
def run (words : List Text) : IO UInt32 := do
  let before ← match Invocation.read words with
    | .ok i => gather i
    | .error _ => pure .empty
  let outcome := Command.run before (← now) words
  writeBack before outcome.disk
  (← IO.getStdout).putStr (String.ofList outcome.output)
  (← IO.getStderr).putStr (String.ofList outcome.complaint)
  return outcome.status.toUInt32

end Crosswalk.Main

/-- The program. -/
def main (args : List String) : IO UInt32 :=
  Crosswalk.Main.run (args.map String.toList)
