/-
  Crosswalk.Command.Settings
  ──────────────────────────────────────
  **THE SETTINGS FILE.**

  Settings are a mapping of YAML with two keys that may be left out, and no
  others.  A file with white space only sets nothing.
-/
import Crosswalk.Command.Trouble
import Crosswalk.Route.Reader

namespace Crosswalk.Command

/-- What a settings file says. -/
structure Settings where
  routesDirectory : Option Text
  logLevel : Option Text
  deriving DecidableEq, Repr

namespace Settings

/-- Nothing is set. -/
def empty : Settings :=
  ⟨none, none⟩

/-- A name of a directory that may be absent. -/
def readDirectory (s : Yaml.Site) : Yaml.Node → Except Yaml.Error (Option Text) :=
  s.optional (s.text "path string")

/-- Settings from a node. -/
def ofNode (s : Yaml.Site) : Yaml.Node → Except Yaml.Error Settings :=
  s.record "struct Settings" .refused
    [.of "routes_dir" readDirectory (fun v a => { a with routesDirectory := v }),
      Route.optionalText "log_level" (fun v a => { a with logLevel := v })]
    empty

/-- Reads settings. -/
def read (content : Text) : Except Yaml.Error Settings :=
  if Text.blank content then .ok empty else Yaml.decode ofNode content

/-- Reads the settings file with the name. -/
def load (d : Storage.Disk) (file : Text) : Except Trouble Settings :=
  match d.read file with
  | .error e => .error (.withFile "failed to read settings file" file (.ofDisk e))
  | .ok content =>
    match read content with
    | .error e => .error (.withFile "invalid settings file" file (.plain e.report))
    | .ok s => .ok s

/-- Where routes are: as asked for, as set, or in the standard place. -/
def directory (s : Settings) (asked : Option Text) : Text :=
  (asked.or s.routesDirectory).getD Catalog.standardDirectory

end Settings

end Crosswalk.Command
