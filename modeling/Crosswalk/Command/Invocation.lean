/-
  Crosswalk.Command.Invocation
  ──────────────────────────────────────
  **WHAT THE WORDS OF A COMMAND LINE ASK FOR.**

  A command line has options, then the name of a command, then the options
  and the places of that command.  An option takes a value, which may be in
  the same word: `--route=x`, `-rx`, `-r=x`.  After the word `--` every word
  is a place.  Options that stand for all commands may come before or after
  the name; the later ones win, but nothing may be given twice on one side.

  Words are read from left to right: the first word that is wrong or that
  asks for the version or for help decides.
-/
import Crosswalk.Message.Format

namespace Crosswalk.Command

/-! ## §1. Options. -/

/-- An option that takes a value. -/
inductive Flag
  | settings
  | routesDirectory
  | logLevel
  | route
  | format
  deriving DecidableEq, Repr

namespace Flag

/-- The name of an option after two dashes. -/
def long : Flag → Text
  | settings => "config".toList
  | routesDirectory => "routes-dir".toList
  | logLevel => "log-level".toList
  | route => "route".toList
  | format => "format".toList

/-- The letter of an option after one dash. -/
def short? : Flag → Option Char
  | settings => some 'c'
  | route => some 'r'
  | format => some 'f'
  | _ => none

/-- The options that stand for all commands. -/
def general : List Flag := [settings, routesDirectory, logLevel]

end Flag

/-- The options that were given. -/
structure Options where
  settings : Option Text
  routesDirectory : Option Text
  logLevel : Option Text
  route : Option Text
  format : Option Format
  deriving DecidableEq, Repr

namespace Options

/-- No option was given. -/
def empty : Options :=
  ⟨none, none, none, none, none⟩

/-- Gives an option, once and with a value that it can have: a name of a file is not empty, a
format is known. -/
def put (o : Options) (flag : Flag) (value : Text) : Option Options :=
  match flag with
  | .settings =>
    if o.settings.isSome || value.isEmpty then none else some { o with settings := some value }
  | .routesDirectory =>
    if o.routesDirectory.isSome || value.isEmpty then none
    else some { o with routesDirectory := some value }
  | .logLevel => if o.logLevel.isSome then none else some { o with logLevel := some value }
  | .route => if o.route.isSome then none else some { o with route := some value }
  | .format =>
    match o.format, Format.ofTag? value with
    | none, some f => some { o with format := some f }
    | _, _ => none

/-- The options of a command, and of those before its name the ones that it does not give. -/
def filledFrom (later earlier : Options) : Options where
  settings := later.settings.or earlier.settings
  routesDirectory := later.routesDirectory.or earlier.routesDirectory
  logLevel := later.logLevel.or earlier.logLevel
  route := later.route.or earlier.route
  format := later.format.or earlier.format

end Options

/-! ## §2. Commands and tasks. -/

/-- The name of a command. -/
inductive Verb
  | translate
  | reply
  | parse
  | batch
  deriving DecidableEq, Repr

namespace Verb

/-- All names. -/
def all : List Verb := [translate, reply, parse, batch]

/-- The word of a name. -/
def word : Verb → Text
  | translate => "translate".toList
  | reply => "reply".toList
  | parse => "parse".toList
  | batch => "batch".toList

/-- The name with the word. -/
def ofWord? (s : Text) : Option Verb :=
  all.find? (·.word = s)

/-- The options of a command. -/
def flags : Verb → List Flag
  | translate => .route :: Flag.general
  | reply => .route :: .format :: Flag.general
  | parse => .format :: Flag.general
  | batch => .route :: Flag.general

/-- The number of places that a command can have. -/
def room : Verb → Nat
  | parse => 1
  | _ => 2

end Verb

/-- What is to be done. -/
inductive Task
  /-- Translates the message in a file, into a file or to the output. -/
  | translate (input : Text) (output : Option Text) (route : Text)
  /-- Translates the reply in a file. -/
  | reply (input : Text) (output : Option Text) (route : Text) (format : Option Format)
  /-- Writes the message in a file to the output in a uniform way. -/
  | parse (input : Text) (format : Format)
  /-- Translates the messages in all files of a directory into files of another. -/
  | batch (inputs outputs : Text) (route : Text)
  deriving DecidableEq, Repr

/-- A task and what stands for all tasks. -/
structure Invocation where
  settings : Option Text
  routesDirectory : Option Text
  logLevel : Option Text
  task : Task
  deriving DecidableEq, Repr

/-- Why a command line runs no command. -/
inductive Refusal
  /-- It is wrong. -/
  | misuse
  /-- It asks for the version. -/
  | version
  /-- It asks for help. -/
  | help
  deriving DecidableEq, Repr

/-! ## §3. Words. -/

/-- What a word of a command line looks like. -/
inductive Word
  /-- Two dashes: only places follow. -/
  | escape
  /-- A name after two dashes, and what follows an equals sign. -/
  | long (name : Text) (value : Option Text)
  /-- A letter after one dash, and what follows it. -/
  | short (letter : Char) (rest : Text)
  | plain (s : Text)
  deriving DecidableEq, Repr

/-- The look of a word. -/
def Word.of (s : Text) : Word :=
  match s with
  | ['-', '-'] => .escape
  | '-' :: '-' :: rest =>
    match Text.cutFirst? ['='] rest with
    | some (name, value) => .long name (some value)
    | none => .long rest none
  | '-' :: letter :: rest => .short letter rest
  | _ => .plain s

/-- The value that follows a letter in its word. -/
def attached? (rest : Text) : Option Text :=
  if rest.isEmpty then none else some (Text.dropLead ['='] rest)

/-! ## §4. Reading. -/

/-- What the next word may be. -/
inductive Next
  | anything
  /-- The value of an option. -/
  | value (f : Flag)
  | place
  deriving DecidableEq, Repr

/-- What the words so far gave. -/
structure Reading where
  verb : Option Verb
  /-- The options before the name of the command, once that was read. -/
  earlier : Options
  options : Options
  places : List Text
  next : Next
  deriving DecidableEq, Repr

namespace Reading

/-- Before the first word. -/
def start : Reading :=
  ⟨none, .empty, .empty, [], .anything⟩

/-- The options that may be given now. -/
def flags (r : Reading) : List Flag :=
  (r.verb.map Verb.flags).getD Flag.general

/-- The number of places that there can be. -/
def room (r : Reading) : Nat :=
  (r.verb.map Verb.room).getD 0

/-- Adds a place when there is room for it; it is not empty. -/
def addPlace (r : Reading) (place : Text) : Except Refusal Reading :=
  if r.room ≤ r.places.length || place.isEmpty then .error .misuse
  else .ok { r with places := r.places ++ [place] }

/-- Gives an option its value. -/
def giveValue (r : Reading) (flag : Flag) (value : Text) : Except Refusal Reading :=
  match r.options.put flag value with
  | some options => .ok { r with options := options, next := .anything }
  | none => .error .misuse

/-- Takes up an option, whose value may be there already. -/
def takeUp (r : Reading) (flag : Flag) (value : Option Text) : Except Refusal Reading :=
  match value with
  | some value => r.giveValue flag value
  | none => .ok { r with next := .value flag }

/-- A name after two dashes. -/
def takeLong (r : Reading) (name : Text) (value : Option Text) : Except Refusal Reading :=
  match r.flags.find? (·.long = name) with
  | some flag => r.takeUp flag value
  | none =>
    if value.isSome then .error .misuse
    else if name = "help".toList then .error .help
    else if r.verb.isNone && name = "version".toList then .error .version
    else .error .misuse

/-- A letter after one dash. -/
def takeShort (r : Reading) (letter : Char) (rest : Text) : Except Refusal Reading :=
  match r.flags.find? (·.short? = some letter) with
  | some flag => r.takeUp flag (attached? rest)
  | none =>
    if letter = 'h' then .error .help
    else if r.verb.isNone && letter = 'V' then .error .version
    else .error .misuse

/-- A word without dashes: the name of the command, then places. -/
def takePlain (r : Reading) (s : Text) : Except Refusal Reading :=
  if r.verb.isSome then r.addPlace s
  else
    match Verb.ofWord? s with
    | some v => .ok { r with verb := some v, earlier := r.options, options := .empty }
    | none => .error (if s = "help".toList then .help else .misuse)

/-- Reads one word. -/
def step (r : Reading) (s : Text) : Except Refusal Reading :=
  match r.next, Word.of s with
  | .place, _ => r.addPlace s
  | .value flag, .plain value => r.giveValue flag value
  | .value _, _ => .error .misuse
  | .anything, .escape => .ok { r with next := .place }
  | .anything, .long name value => r.takeLong name value
  | .anything, .short letter rest => r.takeShort letter rest
  | .anything, .plain s => r.takePlain s

/-- What the words ask for, when nothing is missing. -/
def task? (r : Reading) : Option Task :=
  match r.verb, r.places, r.options.route, r.options.format with
  | some .translate, [input], some route, _ => some (.translate input none route)
  | some .translate, [input, output], some route, _ => some (.translate input (some output) route)
  | some .reply, [input], some route, format => some (.reply input none route format)
  | some .reply, [input, output], some route, format =>
    some (.reply input (some output) route format)
  | some .parse, [input], _, some format => some (.parse input format)
  | some .batch, [inputs, outputs], some route, _ => some (.batch inputs outputs route)
  | _, _, _, _ => none

/-- What all words ask for. -/
def finish (r : Reading) : Except Refusal Invocation :=
  match r.next, r.task? with
  | .value _, _ => .error .misuse
  | _, none => .error .misuse
  | _, some task =>
    let options := r.options.filledFrom r.earlier
    .ok ⟨options.settings, options.routesDirectory, options.logLevel, task⟩

end Reading

/-- Reads the words of a command line. -/
def Invocation.read (words : List Text) : Except Refusal Invocation :=
  match words.foldlM Reading.step Reading.start with
  | .error r => .error r
  | .ok r => r.finish

end Crosswalk.Command
