/-
  Crosswalk.Storage.FileName
  ──────────────────────────────────────
  **NAMES OF FILES.**

  A file is named by a text with slashes between its parts.  Empty parts and
  single dots say nothing.  What follows the last dot of a name is its
  extension, unless nothing stands before that dot; the rest is its stem.
-/
import Crosswalk.Text.Basic

namespace Crosswalk.Storage

/-- The parts of a file name that say something. -/
def parts (name : Text) : List Text :=
  (name.splitOn '/').filter (fun p => !p.isEmpty && p != ['.'])

/-- The file name starts at the root of all files. -/
def isAbsolute (name : Text) : Bool :=
  name.head? == some '/'

/-- The name of an entry of a directory. -/
def join (directory entry : Text) : Text :=
  if directory.isEmpty || isAbsolute entry then entry
  else if directory.getLast? == some '/' then directory ++ entry
  else directory ++ '/' :: entry

/-- The part of a file name that leads to the directory around. -/
def parent : Text := "..".toList

/-- The last part of a file name, unless it leads to the directory around. -/
def entryName? (name : Text) : Option Text :=
  (parts name).getLast?.filter (· != parent)

/-- A name before and after its last dot, when something stands before it. -/
def splitExtension (entry : Text) : Text × Option Text :=
  match Text.cutLast? ['.'] entry with
  | some (stem, extension) => if stem.isEmpty then (entry, none) else (stem, some extension)
  | none => (entry, none)

/-- The name of a file without its directory and its extension. -/
def stem? (name : Text) : Option Text :=
  (entryName? name).map (fun entry => (splitExtension entry).1)

/-- The extension of the name of a file. -/
def extension? (name : Text) : Option Text :=
  (entryName? name).bind (fun entry => (splitExtension entry).2)

end Crosswalk.Storage
