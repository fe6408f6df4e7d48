import ScriptScrub.Config.Settings
import ScriptScrub.Text.LetterCase
import ScriptScrub.Decimal.Layout

/-!
# Settings from the environment

A variable such as `BUILDSWEEP_WATCH__IGNORED` sets the field after the two underscores in the
section before them. Its text becomes a list if the setting is one, and otherwise the most specific
of flag, whole number, number and text.
-/

namespace ScriptScrub.Config

/-- The values of an environment, in the order in which they were set. -/
abbrev Environment := List (String × String)

/-- Sets a variable; one that is set already keeps its place. -/
def Environment.set : Environment → String → String → Environment
  | [], name, value => [(name, value)]
  | e :: es, name, value =>
    if e.1 = name then (name, value) :: es else e :: Environment.set es name value

/-- What the names of the program's variables begin with. -/
def variableStart : String := "BUILDSWEEP_"

/-- The sections with the names of their fields and whether a field is a list. -/
def knownFields : List (String × List (String × Bool)) :=
  [("sanitizer", [("rules", true), ("diagnostic_objects", true), ("preserved_severities", true)]),
   ("batch", [("extensions", true), ("ignore_globs", true), ("excluded_files", true),
     ("ignore_dotfiles", false)]),
   ("watch", [("watch_paths", true), ("ignored", true), ("build_command", true),
     ("overlap_policy", false), ("ignore_dotfiles", false)])]

/-- The parts of a text between commas, blank ones left out. -/
def listItems (s : String) : List String :=
  ((s.splitOn ",").map Text.trim).filter fun item => !item.isEmpty

/-- The value that the text of a single setting stands for. -/
def scalarValue (s : String) : Value :=
  let word := Text.lower s
  if word ∈ ["true", "1", "yes"] then .flag true
  else if word ∈ ["false", "0", "no"] then .flag false
  else match Decimal.whole? s with
    | some n => .whole n
    | none => match Decimal.float? s with
      | some x => .number x
      | none => .text s

/-- The value that the text of a variable stands for. -/
def variableValue (isList : Bool) (s : String) : Value :=
  if isList then .list ((listItems s).map .text) else scalarValue s

/-- Numbers have the fewest digits that identify them, positionally from four zeros after the point
up to sixteen digits before it, otherwise with a signed exponent of at least two digits. -/
def numberLayout : Decimal.Layout where
  leastPlain := -4
  greatestPlain := 15
  wholeEnd := ".0"
  exponentWidth := 2
  infinity := "inf"
  notANumber := "nan"

/-- Splits the name of a variable, in small letters and without its start, at the first two
underscores in a row. -/
def splitName : List Char → List Char × List Char
  | [] => ([], [])
  | '_' :: '_' :: rest => ([], rest)
  | c :: rest =>
    let (section_, field) := splitName rest
    (c :: section_, field)

/-- What a variable means to the program. -/
inductive Variable where
  /-- It is none of the program's. -/
  | foreign
  /-- It has the form of a setting but names none. -/
  | unknown
  | setting (section_ field : String) (isList : Bool)
deriving Repr, DecidableEq

/-- Two underscores in a row. -/
def hasDoubleUnderscore : List Char → Bool
  | '_' :: '_' :: _ => true
  | _ :: rest => hasDoubleUnderscore rest
  | [] => false

/-- What the variable of a given name means. -/
def Variable.ofName (name : String) : Variable :=
  let cs := name.toList
  if !variableStart.toList.isPrefixOf cs || !hasDoubleUnderscore cs then .foreign
  else
    let small := (Text.lower (String.ofList (cs.drop variableStart.length))).toList
    let (s, f) := splitName small
    let sectionName := String.ofList s
    let fieldName := String.ofList f
    match (knownFields.lookup sectionName).bind (·.lookup fieldName) with
    | some isList => .setting sectionName fieldName isList
    | none => .unknown

/-- Adds what one variable sets to the settings of the variables before it. -/
def override (overrides : Entries) (entry : String × String) : Entries :=
  match Variable.ofName entry.1 with
  | .setting s f isList =>
    let fields : Entries := match overrides.named? s with
      | some (.table es) => es
      | _ => []
    overrides.put (.text s) (.table (fields.put (.text f) (variableValue isList entry.2)))
  | _ => overrides

/-- Everything that the environment sets. -/
def overrides (env : Environment) : Entries := env.foldl override []

/-- The variables that have the form of a setting but name none. -/
def unknownVariables (env : Environment) : List String :=
  (env.map (·.1)).filter fun name => Variable.ofName name == .unknown

end ScriptScrub.Config
