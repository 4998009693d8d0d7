/-
  Crosswalk.Catalog.Loader
  ──────────────────────────────────────
  **LOADING ROUTES FROM A DIRECTORY.**

  A route with the id `x` is in the file `x.yaml`, or failing that `x.yml`,
  of the directory.  An id that could lead to another directory is refused.
  The name of the file counts: a route that declares another id gets that of
  its file, and the change is reported.
-/
import Crosswalk.Route.Reader
import Crosswalk.Storage.Disk

namespace Crosswalk.Catalog

open Storage (Disk DiskError)

/-! ## §1. Outcomes. -/

/-- Why a route cannot be loaded. -/
inductive LoadError
  | badId (id : Text)
  | notFound (id directory : Text)
  | disk (e : DiskError)
  | unreadable (file : Text) (e : Yaml.Error)
  | flawed (f : Route.Flaw)
  /-- No id can be taken from the name of the file. -/
  | unnamed (file : Text)
  deriving DecidableEq, Repr

/-- The wording of an error of loading. -/
def LoadError.message : LoadError → Text
  | badId id => Route.complaint ("invalid route id '".toList ++ id ++ ['\''])
  | notFound id directory =>
    "Route not found: route '".toList ++ id ++ "' (searched ".toList ++ Text.quoted directory
      ++ " for .yaml/.yml)".toList
  | disk e => "IO error: ".toList ++ e.message
  | unreadable file e =>
    Route.complaint (file ++ ": ".toList
      ++ Route.complaint ("failed to parse route YAML: ".toList ++ e.report))
  | flawed f => Route.complaint f.message
  | unnamed file => Route.complaint ("cannot derive a route id from ".toList ++ Text.quoted file)

/-- What an error of loading is about. -/
inductive LoadError.Kind
  /-- An id or a file from which no route can be made. -/
  | configuration
  /-- A route without a file. -/
  | missing
  | storage
  deriving DecidableEq, Repr

/-- The kind of an error of loading. -/
def LoadError.kind : LoadError → LoadError.Kind
  | notFound .. => .missing
  | disk _ => .storage
  | badId _ | unreadable .. | flawed _ | unnamed _ => .configuration

/-- A route that declared another id than that of its file. -/
structure Renamed where
  file : Text
  declared : Text
  deriving DecidableEq, Repr

/-- What was loaded, and the routes that got another id meanwhile. -/
structure Loaded (α : Type) where
  renamed : List Renamed
  result : Except LoadError α

/-! ## §2. Single routes. -/

/-- An id that could lead out of the directory, or to no file. -/
def isBadId (id : Text) : Bool :=
  id.isEmpty || decide ('/' ∈ id) || decide ('\\' ∈ id) || id == ['.'] || id == Storage.parent

/-- The extensions of route files, in the order in which they are tried. -/
def extensions : List Text := ["yaml".toList, "yml".toList]

/-- Where routes are looked for when nothing else is said. -/
def standardDirectory : Text := "./mappings".toList

/-- The file of a route. -/
def fileOf (directory id extension : Text) : Text :=
  Storage.join directory (id ++ '.' :: extension)

/-- Gives a route the id of its file. -/
def settleId (file id : Text) (r : Route) : Route × List Renamed :=
  ({ r with id := id }, if Text.blank r.id || r.id == id then [] else [⟨file, r.id⟩])

/-- Loads the route with an id from a file. -/
def loadAs (d : Disk) (file id : Text) : Loaded Route :=
  match d.read file with
  | .error e => ⟨[], .error (.disk e)⟩
  | .ok content =>
    match Route.read content with
    | .error e => ⟨[], .error (.unreadable file e)⟩
    | .ok declared =>
      let (r, renamed) := settleId file id declared
      match r.validate with
      | .error f => ⟨renamed, .error (.flawed f)⟩
      | .ok _ => ⟨renamed, .ok r⟩

/-- Loads the route with an id from a directory. -/
def load (d : Disk) (directory id : Text) : Loaded Route :=
  let id := Text.trim id
  if isBadId id then ⟨[], .error (.badId id)⟩
  else
    match (extensions.map (fileOf directory id)).find? d.isFile with
    | some file => loadAs d file id
    | none => ⟨[], .error (.notFound id directory)⟩

/-- Loads a route from a file; the stem of the file is its id. -/
def loadFile (d : Disk) (file : Text) : Loaded Route :=
  match Storage.stem? file with
  | some id => loadAs d file id
  | none => ⟨[], .error (.unnamed file)⟩

/-! ## §3. All routes. -/

/-- Loads routes from files one after the other, up to the first error. -/
def loadFiles (d : Disk) : List Text → Loaded (List Route)
  | [] => ⟨[], .ok []⟩
  | file :: rest =>
    let first := loadFile d file
    match first.result with
    | .error e => ⟨first.renamed, .error e⟩
    | .ok r =>
      let others := loadFiles d rest
      ⟨first.renamed ++ others.renamed, others.result.map (r :: ·)⟩

/-- The name is that of a route file. -/
def isRouteFile (d : Disk) (file : Text) : Bool :=
  d.isFile file && (Storage.extension? file).any (extensions.contains ·)

/-- The routes by their ids. -/
def sortById (routes : List Route) : List Route :=
  routes.mergeSort (fun a b => !decide (b.id < a.id))

/-- Loads all routes of a directory, in the order of their ids. -/
def loadAll (d : Disk) (directory : Text) : Loaded (List Route) :=
  match d.list directory with
  | .error e => ⟨[], .error (.disk e)⟩
  | .ok names =>
    let all := loadFiles d ((names.map (Storage.join directory)).filter (isRouteFile d))
    ⟨all.renamed, all.result.map sortById⟩

end Crosswalk.Catalog
