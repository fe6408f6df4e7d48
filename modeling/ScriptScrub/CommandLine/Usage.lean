import ScriptScrub.CommandLine.Options
import ScriptScrub.Config.Settings

/-!
# The use of the command line

The commands with their options, what is shown about their use, and how the words of a command line
can be wrong.
-/

namespace ScriptScrub.CommandLine

/-- The commands. -/
inductive Command where
  | clean
  | watch
deriving Repr, DecidableEq, Inhabited

namespace Command

/-- The name of a command. -/
def name : Command → String
  | clean => "clean"
  | watch => "watch"

/-- Every command. -/
def all : List Command := [clean, watch]

/-- The command of a given name. -/
def ofName? (s : String) : Option Command := all.find? (·.name == s)

/-- What a command is for. -/
def purpose : Command → String
  | clean => "Remove diagnostic calls and comments from sources under TARGET_DIR."
  | watch => "Run the build once, then again on every source change."

/-- The words that stand for what may follow the options of a command. -/
def wordsShown : Command → String
  | clean => " [TARGET_DIR]"
  | watch => ""

end Command

/-- The program as a whole, or one of its commands. -/
abbrev Part := Option Command

/-- The option that asks for help. -/
def helpOption : OptionSpec := { name := "--help" }

namespace Part

/-- The options of a part. -/
def options : Part → List OptionSpec
  | none => [{ name := "--verbose", letter := some 'v' }, { name := "--quiet", letter := some 'q' },
      { name := "--config", takesValue := true }, helpOption]
  | some .clean =>
    [{ name := "--dry-run" }, { name := "--exclude", takesValue := true }, helpOption]
  | some .watch => [{ name := "--root", takesValue := true },
      { name := "--policy", takesValue := true },
      { name := "--build-command", takesValue := true }, helpOption]

/-- What an option of a part is for. -/
def purposeOf : String → String
  | "--verbose" => "Enable verbose logging"
  | "--quiet" => "Only log warnings and errors"
  | "--config" => "Config file path"
  | "--dry-run" => "Report what would change without writing"
  | "--exclude" => "Extra file name to never rewrite (repeatable)"
  | "--root" => "Project root to watch"
  | "--policy" => "Handling of changes while a build is running"
  | "--build-command" => "Override the build command (shell-style string)"
  | _ => "Show this message and exit."

/-- The words with which a part is called. -/
def path : Part → String
  | none => "main"
  | some c => "main " ++ c.name

/-- How a part is used. -/
def usage (p : Part) : String :=
  let words := match p with
    | none => " COMMAND [ARGS]..."
    | some c => c.wordsShown
  s!"Usage: {p.path} [OPTIONS]{words}"

/-- Where to find help. -/
def hint (p : Part) : String := s!"Try '{p.path} --help' for help."

/-- An option as it is listed. -/
def optionLine (o : OptionSpec) : String :=
  let short := match o.letter with
    | some c => String.ofList ['-', c, ',', ' ']
    | none => ""
  s!"  {short}{o.name}  {purposeOf o.name}"

/-- The help on a part. -/
def help (p : Part) : List String :=
  let commands := Command.all.map fun c => s!"  {c.name}  {c.purpose}"
  [p.usage, "", "Options:"] ++ p.options.map optionLine ++
    (if p.isNone then ["", "Commands:"] ++ commands else [])

end Part

/-- How the words of a command line can be wrong. -/
inductive UsageError where
  | option (fault : OptionFault)
  | noCommand
  | unknownCommand (name : String)
  | extraWords (words : List String)
  /-- The folder to be watched is a file, or is not there. -/
  | badRoot (path : String) (isFile : Bool)
  | badPolicy (name : String)
deriving Repr, DecidableEq, Inhabited

namespace UsageError

/-- The sentence about an error. -/
def message : UsageError → String
  | option fault => fault.message
  | noCommand => "Missing command."
  | unknownCommand name =>
    let similar := Text.closeMatches name (Command.all.map (·.name))
    s!"No such command {Text.quoted name}.{suggestion similar}"
  | extraWords words =>
    let many := if words.length = 1 then "" else "s"
    let listed := " ".intercalate words
    s!"Got unexpected extra argument{many} ({listed})"
  | badRoot path isFile =>
    let problem := if isFile then "is a file" else "does not exist"
    s!"Invalid value for '--root': Directory {Text.quoted path} {problem}."
  | badPolicy name =>
    let known := ", ".intercalate (Config.OverlapPolicy.all.map fun p => Text.quoted p.name)
    s!"Invalid value for '--policy': {Text.quoted name} is not one of {known}."

/-- Is the use of the command shown with the error? A value that is missing, or one too many, is
told about without. -/
def showsUsage : UsageError → Bool
  | option (.needsValue _) | option (.takesNoValue _) => false
  | _ => true

/-- What is shown of an error in the use of a part. -/
def lines (e : UsageError) (p : Part) : List String :=
  (if e.showsUsage then [p.usage, p.hint, ""] else []) ++ ["Error: " ++ e.message]

end UsageError

end ScriptScrub.CommandLine
