import ScriptScrub.Text.Quoted
import ScriptScrub.Text.Similarity

/-!
# Options on a command line

How the words of a command line fall into options with their values and the other words. A long
option may have its value behind an equals sign; short ones may share a dash. Two dashes alone end
the options.
-/

namespace ScriptScrub.CommandLine

/-- An option. It is known by its first name. -/
structure OptionSpec where
  name : String
  /-- The letter that stands for it behind one dash. -/
  letter : Option Char := none
  takesValue : Bool := false
deriving Repr, DecidableEq, Inhabited

/-- An option that was given, with its value if it takes one. -/
structure Given where
  name : String
  value : String := ""
deriving Repr, DecidableEq, Inhabited

/-- The options that were given and the words that are none. -/
structure Parsed where
  given : List Given := []
  words : List String := []
deriving Repr, DecidableEq, Inhabited

/-- Why options cannot be understood. -/
inductive OptionFault where
  /-- There is no such option; some have similar names. -/
  | unknown (name : String) (similar : List String)
  | needsValue (name : String)
  | takesNoValue (name : String)
deriving Repr, DecidableEq, Inhabited

/-- A guess at what was meant, to be put behind a sentence. -/
def suggestion : List String → String
  | [] => ""
  | [name] => s!" Did you mean {Text.quoted name}?"
  | names =>
    let listed := ", ".intercalate (names.map Text.quoted)
    s!" (Did you mean one of: {listed}?)"

/-- The sentence about a fault. -/
def OptionFault.message : OptionFault → String
  | unknown name similar => s!"No such option {Text.quoted name}.{suggestion similar}"
  | needsValue name => s!"Option {Text.quoted name} requires an argument."
  | takesNoValue name => s!"Option {Text.quoted name} does not take a value."

/-- Options that were given, and whether the word after them belongs to them too. -/
abbrev Step := Except OptionFault (List Given × Bool)

/-- The value of an option: the one that is attached to it, or else the next word. -/
def withValue (spec : OptionSpec) (shown : String) (attached next : Option String) : Step :=
  match attached, next with
  | some value, _ => .ok ([⟨spec.name, value⟩], false)
  | none, some value => .ok ([⟨spec.name, value⟩], true)
  | none, none => .error (.needsValue shown)

/-- Reads the letters behind one dash. -/
def readLetters (specs : List OptionSpec) (next : Option String) : List Char → Step
  | [] => .ok ([], false)
  | c :: cs =>
    let shown := String.ofList ['-', c]
    match specs.find? (·.letter == some c) with
    | none => .error (.unknown shown [])
    | some spec =>
      if spec.takesValue then
        withValue spec shown (if cs.isEmpty then none else some (String.ofList cs)) next
      else (readLetters specs next cs).map fun (given, used) => (⟨spec.name, ""⟩ :: given, used)

/-- Reads a word that is an option. -/
def readOption (specs : List OptionSpec) (word : String) (next : Option String) : Step :=
  let cs := word.toList
  let name := String.ofList (cs.takeWhile (· != '='))
  let attached := (cs.dropWhile (· != '=')).tail?.map String.ofList
  match specs.find? (·.name == name) with
  | some spec =>
    if spec.takesValue then withValue spec name attached next
    else if attached.isSome then .error (.takesNoValue name)
    else .ok ([⟨spec.name, ""⟩], false)
  | none =>
    if word.startsWith "--" then
      .error (.unknown name (Text.closeMatches name (specs.map (·.name))))
    else readLetters specs next (cs.drop 1)

/-- Is a word one or more options? -/
def isOption (word : String) : Bool := word.startsWith "-" && word != "-"

/-- What is left of some words has no more words. -/
theorem length_left_le (used : Bool) (words : List String) :
    (if used then words.drop 1 else words).length ≤ words.length := by
  cases used with
  | true => exact (List.drop_sublist 1 words).length_le
  | false => exact Nat.le_refl _

/-- Reads the options among words. Unless options may come behind other words, the first of these
ends them. -/
def readOptions (specs : List OptionSpec) (anywhere : Bool) :
    List String → Except OptionFault Parsed
  | [] => .ok {}
  | word :: words =>
    if word = "--" then .ok { words := words }
    else if isOption word then
      match readOption specs word words.head? with
      | .error fault => .error fault
      | .ok (given, used) =>
        (readOptions specs anywhere (if used then words.drop 1 else words)).map fun p =>
          { p with given := given ++ p.given }
    else if anywhere then
      (readOptions specs anywhere words).map fun p => { p with words := word :: p.words }
    else .ok { words := word :: words }
termination_by words => words.length
decreasing_by
  · exact Nat.lt_succ_of_le (length_left_le used words)
  · exact Nat.lt_succ_self _

namespace Parsed

/-- Was an option given? -/
def has (p : Parsed) (name : String) : Bool := p.given.any (·.name == name)

/-- All values of an option. -/
def values (p : Parsed) (name : String) : List String :=
  (p.given.filter (·.name == name)).map (·.value)

/-- The value of an option that counts: the last one. -/
def value? (p : Parsed) (name : String) : Option String := (p.values name).getLast?

end Parsed

end ScriptScrub.CommandLine
