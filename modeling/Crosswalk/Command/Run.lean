/-
  Crosswalk.Command.Run
  ──────────────────────────────────────
  **RUNNING A COMMAND LINE.**

  `run` takes a disk and the words of a command line, and gives the disk
  afterwards with everything that the program says: the status it ends with,
  its output and its complaint.  A command that fails has no output.
-/
import Crosswalk.Command.Batch
import Crosswalk.Command.Invocation
import Crosswalk.Command.Settings

namespace Crosswalk.Command

open Storage (Disk)

/-! ## §1. Tasks. -/

/-- The text of a file that is to be translated or parsed. -/
def readInput (d : Disk) (input : Text) : Except Trouble Text :=
  (d.read input).mapError (fun e => .withFile "failed to read input file" input (.ofDisk e))

/-- Writes a text into a file, or as a line to the output. -/
def writeOutput (d : Disk) (output : Option Text) (text : Text) : Disk × Except Trouble Text :=
  match output with
  | none => (d, .ok (text ++ ['\n']))
  | some file =>
    match d.write file (.text text) with
    | .ok next => (next, .ok [])
    | .error e => (d, .error (.withFile "failed to write output file" file (.ofDisk e)))

/-- Translates the content of a file by a turn of a translator. -/
def translateFile (d : Disk) (input : Text) (output : Option Text)
    (turn : Text → Delivery.Turn Text) : Disk × Except Trouble Text :=
  match readInput d input with
  | .error t => (d, .error t)
  | .ok content =>
    match (turn content).result with
    | .error f => (d, .error (.ofFailure f))
    | .ok text => writeOutput d output text

/-- Writes a message to the output in a uniform way. -/
def parseFile (d : Disk) (input : Text) (format : Format) : Disk × Except Trouble Text :=
  match readInput d input with
  | .error t => (d, .error t)
  | .ok content =>
    match Message.read format content with
    | .error e => (d, .error (.withFile "failed to parse" input (.ofReadError e)))
    | .ok message => writeOutput d none message.write

/-- Does a task with the routes of a directory. -/
def Task.run (d : Disk) (now : Calendar.Instant) (directory : Text) :
    Task → Disk × Except Trouble Text
  | .translate input output route =>
    translateFile d input output (fun content =>
      Delivery.request (.empty directory) d now content route)
  | .reply input output route format =>
    translateFile d input output (fun content =>
      Delivery.reply (.empty directory) d now content route format)
  | .parse input format => parseFile d input format
  | .batch inputs outputs route => translateAll d now directory inputs outputs route

/-- The settings that an invocation names. -/
def Invocation.loadSettings (d : Disk) (i : Invocation) : Except Trouble Settings :=
  match i.settings with
  | none => .ok .empty
  | some file => Settings.load d file

/-- Does what an invocation says. -/
def Invocation.run (d : Disk) (now : Calendar.Instant) (i : Invocation) :
    Disk × Except Trouble Text :=
  match i.loadSettings d with
  | .error t => (d, .error t)
  | .ok settings => i.task.run d now (settings.directory i.routesDirectory)

/-! ## §2. Command lines. -/

/-- What a program leaves behind. -/
structure Outcome where
  /-- The status that it ends with: zero when all went well. -/
  status : Nat
  output : Text
  complaint : Text
  disk : Disk
  deriving DecidableEq, Repr

/-- The version of the program. -/
def versionLine : Text := "msgmap 0.1.0\n".toList

/-- How the program is used. -/
def usage : Text :=
  ("Declarative financial message translation\n\n" ++
    "Usage: msgmap [OPTIONS] <COMMAND>\n\n" ++
    "Commands:\n" ++
    "  translate <INPUT> [OUTPUT] --route <ROUTE>\n" ++
    "  reply <INPUT> [OUTPUT] --route <ROUTE> [--format <FORMAT>]\n" ++
    "  parse <INPUT> --format <FORMAT>\n" ++
    "  batch <INPUT_DIR> <OUTPUT_DIR> --route <ROUTE>\n\n" ++
    "Options:\n" ++
    "  -c, --config <CONFIG>\n" ++
    "      --routes-dir <ROUTES_DIR>\n" ++
    "      --log-level <LOG_LEVEL>\n" ++
    "  -h, --help\n" ++
    "  -V, --version\n").toList

/-- What is said when no command is run. -/
def Refusal.outcome (d : Disk) : Refusal → Outcome
  | .misuse => ⟨2, [], usage, d⟩
  | .version => ⟨0, versionLine, [], d⟩
  | .help => ⟨0, usage, [], d⟩

/-- Runs a command line. -/
def run (d : Disk) (now : Calendar.Instant) (words : List Text) : Outcome :=
  match Invocation.read words with
  | .error r => r.outcome d
  | .ok i =>
    match i.run d now with
    | (last, .ok output) => ⟨0, output, [], last⟩
    | (last, .error t) => ⟨1, [], t.report, last⟩

end Crosswalk.Command
