/-
  Crosswalk.Storage.Disk
  ──────────────────────────────────────
  **FILES AND DIRECTORIES AS A VALUE.**

  A disk is a list of files and directories, the newest first.  Every
  directory is in it but those that are always there: the working directory,
  the directories around it, and the root of all files.  A directory lists
  its entries in that order, and a file that is written again keeps its place.

  File names are looked up part by part from the working directory, and every
  part but the last must be a directory.
-/
import Crosswalk.Storage.FileName
import Crosswalk.Text.Position

namespace Crosswalk.Storage

/-! ## §1. Disks. -/

/-- What a file holds. -/
inductive Content
  | text (s : Text)
  /-- Bytes that are no text. -/
  | bytes (bs : List UInt8)
  deriving DecidableEq, Repr

namespace Content

/-- The bytes of a file. -/
def toBytes : Content → List UInt8
  | text s => Text.bytes s
  | bytes bs => bs

/-- A file with some bytes. -/
def ofBytes (bs : List UInt8) : Content :=
  match String.fromUTF8? ⟨bs.toArray⟩ with
  | some s => text s.toList
  | none => bytes bs

/-- A text written over a file, from its start; bytes of the file behind it stay. -/
def overlay (c : Content) (s : Text) : Content :=
  let left := c.toBytes.drop (Text.byteSize s)
  if left.isEmpty then text s else ofBytes ((text s).toBytes ++ left)

end Content

/-- What a name stands for. -/
inductive Node
  | file (c : Content)
  | directory
  deriving DecidableEq, Repr

/-- The parts of a name, from the working directory on. -/
abbrev Place := List Text

/-- The files and directories, the newest first. -/
structure Disk where
  entries : List (Place × Node)
  deriving DecidableEq, Repr

/-- Why something cannot be done with a file. -/
inductive DiskError
  | notFound
  | exists_
  | notDirectory
  | isDirectory
  /-- The bytes of the file are no text. -/
  | notText
  | nameTooLong
  deriving DecidableEq, Repr

/-- The wording of an error of a disk. -/
def DiskError.message : DiskError → Text
  | notFound => "No such file or directory (os error 2)".toList
  | exists_ => "File exists (os error 17)".toList
  | notDirectory => "Not a directory (os error 20)".toList
  | isDirectory => "Is a directory (os error 21)".toList
  | notText => "stream did not contain valid UTF-8".toList
  | nameTooLong => "File name too long (os error 36)".toList

namespace Disk

/-- A disk with nothing on it. -/
def empty : Disk := ⟨[]⟩

/-- The root of all files, which is no entry of another directory. -/
def root : Text := ['/']

/-- The place is that of a directory that is always there. -/
def isBase (place : Place) : Bool :=
  place.all (· == parent) || place == [root]

/-- What stands at a place. -/
def node? (d : Disk) (place : Place) : Option Node :=
  if isBase place then some .directory
  else (d.entries.find? (·.1 = place)).map (·.2)

/-- Puts something at a place: in place of what is there, or as the newest. -/
def put (d : Disk) (place : Place) (node : Node) : Disk :=
  if (d.node? place).isSome then
    ⟨d.entries.map (fun e => if e.1 = place then (place, node) else e)⟩
  else ⟨(place, node) :: d.entries⟩

/-- Removes what stands at a place. -/
def remove (d : Disk) (place : Place) : Disk :=
  ⟨d.entries.filter (·.1 ≠ place)⟩

/-! ## §2. Looking up names. -/

/-- The number of bytes that a part of a name may have. -/
def longestPart : Nat := 255

/-- Goes from a directory to an entry of it, or to the directory around it. -/
def enter (here : Place) (part : Text) : Place :=
  if part = parent then
    match here.getLast? with
    | none => [parent]
    | some last =>
      if last = parent then here ++ [parent]
      else if last = root then here
      else here.dropLast
  else here ++ [part]

/-- Goes from a directory along parts of a name. -/
def walk (d : Disk) : (here : Place) → List Text → Except DiskError Place
  | here, [] => .ok here
  | here, part :: rest =>
    match d.node? here with
    | none => .error .notFound
    | some (.file _) => .error .notDirectory
    | some .directory =>
      if longestPart < Text.byteSize part then .error .nameTooLong
      else walk d (enter here part) rest

/-- The place where a name starts. -/
def origin (name : Text) : Place :=
  if isAbsolute name then [root] else []

/-- The place that a name leads to.  A name that ends with a slash is one of a directory. -/
def locate (d : Disk) (name : Text) : Except DiskError Place :=
  if name.isEmpty then .error .notFound
  else
    match d.walk (origin name) (parts name) with
    | .error e => .error e
    | .ok place =>
      match d.node? place, name.getLast? == some '/' with
      | some (.file _), true => .error .notDirectory
      | _, _ => .ok place

/-- What a name stands for. -/
def find (d : Disk) (name : Text) : Except DiskError Node :=
  match d.locate name with
  | .error e => .error e
  | .ok place =>
    match d.node? place with
    | some n => .ok n
    | none => .error .notFound

/-- The name is that of a file. -/
def isFile (d : Disk) (name : Text) : Bool :=
  match d.find name with
  | .ok (.file _) => true
  | _ => false

/-! ## §3. Reading. -/

/-- The text of a file. -/
def read (d : Disk) (name : Text) : Except DiskError Text :=
  match d.find name with
  | .error e => .error e
  | .ok .directory => .error .isDirectory
  | .ok (.file (.bytes _)) => .error .notText
  | .ok (.file (.text s)) => .ok s

/-- The entries of a directory, by their names. -/
def list (d : Disk) (name : Text) : Except DiskError (List Text) :=
  match d.locate name with
  | .error e => .error e
  | .ok place =>
    match d.node? place with
    | none => .error .notFound
    | some (.file _) => .error .notDirectory
    | some .directory =>
      .ok (d.entries.filterMap (fun e =>
        if e.1.dropLast = place then e.1.getLast? else none))

/-! ## §4. Writing. -/

/-- Writes a file, whose directory must be there. -/
def write (d : Disk) (name : Text) (content : Content) : Except DiskError Disk :=
  match d.locate name with
  | .error e => .error e
  | .ok place =>
    match d.node? place.dropLast, d.node? place with
    | some .directory, some .directory => .error .isDirectory
    | some .directory, some (.file _) => .ok (d.put place (.file content))
    | some .directory, none =>
      if name.getLast? == some '/' then .error .isDirectory else .ok (d.put place (.file content))
    | some (.file _), _ => .error .notDirectory
    | none, _ => .error .notFound

/-- Writes a text into a file that is open, from its start. -/
def overwrite (d : Disk) (name s : Text) : Disk :=
  match d.locate name with
  | .error _ => d
  | .ok place =>
    match d.node? place with
    | some (.file content) => d.put place (.file (content.overlay s))
    | _ => d

/-- Makes the directories along parts of a name. -/
def makeAlong (d : Disk) : (here : Place) → List Text → Except DiskError Disk
  | _, [] => .ok d
  | here, part :: rest =>
    if longestPart < Text.byteSize part then .error .nameTooLong
    else
      let next := enter here part
      match d.node? next with
      | some .directory => makeAlong d next rest
      | some (.file _) => .error (if rest.isEmpty then .exists_ else .notDirectory)
      | none => makeAlong (d.put next .directory) next rest

/-- Makes a directory and those around it. -/
def makeDirectory (d : Disk) (name : Text) : Except DiskError Disk :=
  d.makeAlong (origin name) (parts name)

end Disk

end Crosswalk.Storage
