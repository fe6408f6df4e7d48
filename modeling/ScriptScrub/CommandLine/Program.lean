import ScriptScrub.Batch.Report
import ScriptScrub.CommandLine.Usage
import ScriptScrub.Config.EnvFile
import ScriptScrub.Config.Load
import ScriptScrub.Text.ShellWords

/-!
# The program

What comes of a command line: the folder `here` is the place from which the program is called, and
its file of variables adds to the environment before the configuration is loaded. Watching itself is
left to whoever runs the program.
-/

namespace ScriptScrub.CommandLine

/-- Where the program is called. -/
structure Surroundings where
  files : FileTree
  here : List String := []
  home : List String := []
  environment : Config.Environment := []

/-- What the program tells while it works. -/
inductive Told where
  /-- A line of the file of variables cannot be understood. -/
  | brokenVariable (line : Nat)
  | config (n : Config.Notice)
  | batch (n : Batch.Notice)
deriving Repr, DecidableEq

/-- A notice in words with the level that it has, unless it is shown without one. -/
def Told.line : Told → Option Level × String
  | brokenVariable line =>
    (none, s!"python-dotenv could not parse statement starting at line {line}")
  | config n => (some n.line.level, n.line.text)
  | batch n => (some n.line.level, n.line.text)

/-- What the program does not know how to handle. -/
inductive Uncaught where
  | badVariable (e : Config.EnvFile.Unsettable)
  /-- The file of variables is no text. -/
  | variablesNotText (content : Bytes)
  | config (e : Config.LoadError)
  | batch (e : Batch.RunError)
  | command (e : Text.ShellFault)
  | markup (e : Text.MarkupFault)
deriving Repr, DecidableEq

/-- The sentence about it. -/
def Uncaught.message : Uncaught → String
  | badVariable e => e.message
  | variablesNotText content => Text.faultMessage content
  | config e => e.message
  | batch e => e.message
  | command e => e.message
  | markup e => e.message

/-- How the program ends. -/
inductive Ending where
  | done
  | help (p : Part)
  /-- Nothing was asked for. -/
  | noWords
  | misused (p : Part) (e : UsageError)
  /-- The folder to be cleaned is not there. -/
  | noDirectory (path : String)
  /-- The settings are not what they have to be. -/
  | invalid (violations : List Config.Violation)
  /-- A folder is to be watched. -/
  | watch (settings : Config.WatchSettings) (root : String)
  | uncaught (e : Uncaught)
deriving Repr, DecidableEq

namespace Ending

/-- The code that an ending comes with. -/
def exitCode : Ending → UInt32
  | done | help _ | watch _ _ => 0
  | noDirectory _ | invalid _ | uncaught _ => 1
  | noWords | misused _ _ => 2

/-- The place and the kind of a violation. -/
def violationLine (v : Config.Violation) : String :=
  let names := v.place.map fun
    | .field name => name
    | .item i => toString i
  let place := ".".intercalate names
  s!"{place}: {v.complaint.code}"

/-- What is told about an ending. -/
def lines : Ending → List String
  | noWords => Part.help none
  | misused p e => e.lines p
  | noDirectory path => [s!"Error: {(Batch.RunError.noDirectory path).message}"]
  | invalid violations => "Error: Invalid configuration:" :: violations.map violationLine
  | done | help _ | watch _ _ | uncaught _ => []

end Ending

/-- What comes of a command line. -/
structure Result where
  ending : Ending
  /-- What the program prints. -/
  output : String := ""
  /-- What it tells besides. -/
  told : List Told := []
  /-- What is less important than this is not shown. -/
  threshold : Level := .info
  files : FileTree

/-- The name of the file of variables. -/
def variablesFile : String := ".env"

/-- The environment together with the variables of the file, if it is there. -/
def environmentOf (s : Surroundings) : List Told × Except Uncaught Config.Environment :=
  match s.files.read s.here variablesFile with
  | .error _ => ([], .ok s.environment)
  | .ok content =>
    match Text.decodeChars? content with
    | none => ([], .error (.variablesNotText content))
    | some text =>
      let (broken, result) := Config.EnvFile.load s.environment text
      (broken.map .brokenVariable, result.mapError .badVariable)

/-- The settings for what was asked of the program as a whole. -/
def settingsFor (s : Surroundings) (asked : Parsed) :
    List Told × Except Ending Config.Settings :=
  match environmentOf s with
  | (told, .error e) => (told, .error (.uncaught e))
  | (told, .ok env) =>
    let (notices, result) := Config.load s.files s.here s.home (asked.value? "--config") env
    (told ++ notices.map .config, result.mapError fun
      | .invalid violations => .invalid violations
      | e => .uncaught (.config e))

/-- The least important level that is shown. -/
def thresholdFor (asked : Parsed) : Level :=
  if asked.has "--verbose" then .debug else if asked.has "--quiet" then .warning else .info

/-- Cleans the sources below a folder. -/
def clean (grammar : Grammar) (pictures : Text.Pictures) (s : Surroundings)
    (settings : Config.Settings) (asked : Parsed) : Result :=
  let excluded := settings.batch.excludedFiles ++ asked.values "--exclude"
  let dryRun := asked.has "--dry-run"
  let runner : Batch.Runner := {
    settings := { settings.batch with excludedFiles := excluded }
    sanitizer := settings.sanitizer, grammar, room := .usual, dryRun }
  let (progress, result) := runner.run s.files s.here (asked.words.headD ".")
  let told := progress.notices.map .batch
  let files := progress.files
  match result with
  | .error (.noDirectory path) => { ending := .noDirectory path, told, files }
  | .error e => { ending := .uncaught (.batch e), told, files }
  | .ok (stats, outcomes) =>
    let (output, fault) := Batch.report stats (outcomes.map (·.fileReport)) dryRun pictures
    let ending := match fault with
      | some e => Ending.uncaught (.markup e)
      | none => .done
    { ending, output, told, files }

/-- What is wrong with the value of an option of `watch`, if anything is. -/
def watchOptionError? (s : Surroundings) (g : String) (asked : Parsed) : Option UsageError :=
  match g, asked.value? g with
  | "--root", some path =>
    match s.files.entryAt s.here path with
    | .ok e => if path.isEmpty then some (.badRoot path false)
      else if e.isFolder then none else some (.badRoot path true)
    | .error _ => some (.badRoot path false)
  | "--policy", some name =>
    if (Config.OverlapPolicy.ofName? name).isSome then none else some (.badPolicy name)
  | _, _ => none

/-- The settings of a watch with what was asked for on the command line. -/
def watchSettings (settings : Config.WatchSettings) (asked : Parsed) :
    Except Text.ShellFault Config.WatchSettings := do
  let policy := (asked.value? "--policy").bind Config.OverlapPolicy.ofName?
  let settings := { settings with overlapPolicy := policy.getD settings.overlapPolicy }
  match (asked.value? "--build-command").filter (!·.isEmpty) with
  | some line => return { settings with buildCommand := ← Text.shellWords line }
  | none => return settings

/-- How asking to watch a folder ends. -/
def watch (settings : Config.Settings) (asked : Parsed) : Ending :=
  match watchSettings settings.watch asked with
  | .ok settings => .watch settings ((asked.value? "--root").getD ".")
  | .error e => .uncaught (.command e)

/-- What is wrong with the words for a command, if anything is. The options come first, in the order
in which they were given. -/
def commandError? (s : Surroundings) (c : Command) (asked : Parsed) : Option UsageError :=
  let options := match c with
    | .clean => none
    | .watch => asked.given.findSome? fun g => watchOptionError? s g.name asked
  let extra := match c with
    | .clean => asked.words.drop 1
    | .watch => asked.words
  options <|> (if extra.isEmpty then none else some (.extraWords extra))

/-- Runs a command with the words that follow its name. -/
def runCommand (grammar : Grammar) (pictures : Text.Pictures) (s : Surroundings)
    (settings : Config.Settings) (c : Command) (words : List String) : Result :=
  let files := s.files
  match readOptions (Part.options (some c)) true words with
  | .error fault => { ending := .misused (some c) (.option fault), files }
  | .ok asked =>
    if asked.has "--help" then { ending := .help (some c), files }
    else match commandError? s c asked with
      | some e => { ending := .misused (some c) e, files }
      | none =>
        match c with
        | .clean => clean grammar pictures s settings asked
        | .watch => { ending := watch settings asked, files }

/-- The command that the first word names. A word that is no command is an error, but first of all
one of the program's options if it looks like one. -/
def commandOf (words : List String) : Except Ending (Command × List String) :=
  match words with
  | [] => .error (.misused none .noCommand)
  | name :: rest =>
    match Command.ofName? name with
    | some c => .ok (c, rest)
    | none =>
      match readOptions (Part.options none) false words with
      | .error fault => .error (.misused none (.option fault))
      | .ok asked =>
        .error (if asked.has "--help" then .help none else .misused none (.unknownCommand name))

/-- Runs the program with its words, on a console with some pictures. -/
def run (grammar : Grammar) (s : Surroundings) (words : List String)
    (pictures : Text.Pictures := fun _ => none) : Result :=
  let files := s.files
  if words.isEmpty then { ending := .noWords, files }
  else match readOptions (Part.options none) false words with
    | .error fault => { ending := .misused none (.option fault), files }
    | .ok asked =>
      if asked.has "--help" then { ending := .help none, files }
      else match commandOf asked.words with
        | .error ending => { ending, files }
        | .ok (c, rest) =>
          let threshold := thresholdFor asked
          match settingsFor s asked with
          | (told, .error ending) => { ending, told, threshold, files }
          | (told, .ok settings) =>
            let r := runCommand grammar pictures s settings c rest
            { r with told := told ++ r.told, threshold }

namespace Result

/-- All that is printed. -/
def printed (r : Result) : String :=
  match r.ending with
  | .help p => r.output ++ Batch.printed p.help
  | _ => r.output

/-- The lines that are told, each with its level if it has one. -/
def messages (r : Result) : List String :=
  let shown := r.told.filterMap fun t => match t.line with
    | (none, text) => some text
    | (some level, text) =>
      if r.threshold.rank ≤ level.rank then some (level.name ++ " " ++ text) else none
  shown ++ r.ending.lines

end Result

end ScriptScrub.CommandLine
