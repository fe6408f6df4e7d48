import ScriptScrub.Config.Environment
import ScriptScrub.Text.Blank

/-!
# Files of variables

A file may set variables of the environment, one in a line: a name, an equals sign and a value that
may stand in quotes. A value may refer to other variables. What the environment holds already is
kept.
-/

namespace ScriptScrub.Config.EnvFile

/-- A line as it was read. -/
inductive Binding where
  /-- The line says nothing. -/
  | none
  /-- A variable with its value, if it has one. -/
  | set (name : String) (value : Option String)
  /-- The line cannot be understood. -/
  | broken
deriving Repr, DecidableEq, Inhabited

/-- A blank that does not end a line. -/
def isInlineBlank (c : Char) : Bool := Text.isBlank c && c != '\n' && c != '\r'

/-- Every line ends in a line feed. -/
def unifyLines : List Char → List Char
  | '\r' :: '\n' :: cs => '\n' :: unifyLines cs
  | '\r' :: cs => '\n' :: unifyLines cs
  | c :: cs => c :: unifyLines cs
  | [] => []

/-- What follows the line that the text begins in. -/
def restOfLine (cs : List Char) : List Char := (cs.dropWhile (· != '\n')).drop 1

/-- What follows a comment and the end of the line, if nothing else is there. -/
def lineEnd? (cs : List Char) : Option (List Char) :=
  let cs := cs.dropWhile isInlineBlank
  let cs := if cs.head? = some '#' then cs.dropWhile (· != '\n') else cs
  match cs with
  | [] => some []
  | '\n' :: rest => some rest
  | _ => none

/-- The text up to the quote that closes it, and what follows. A quote after a backslash closes it
only if no other does. -/
def quotedText? (quote : Char) : List Char → Option (List Char × List Char)
  | [] => none
  | '\\' :: c :: cs =>
    if c = quote then
      match quotedText? quote cs with
      | some (text, rest) => some ('\\' :: c :: text, rest)
      | none => some (['\\'], cs)
    else (quotedText? quote (c :: cs)).map fun (text, rest) => ('\\' :: text, rest)
  | c :: cs =>
    if c = quote then some ([], cs)
    else (quotedText? quote cs).map fun (text, rest) => (c :: text, rest)

/-- What the character after a backslash stands for. -/
def escapes (quote : Char) : List (Char × Char) :=
  if quote = '\'' then [('\\', '\\'), ('\'', '\'')]
  else [('\\', '\\'), ('\'', '\''), ('"', '"'), ('a', '\x07'), ('b', '\x08'), ('f', '\x0c'),
    ('n', '\n'), ('r', '\r'), ('t', '\t'), ('v', '\x0b')]

/-- A quoted text with its escapes replaced. -/
def unescape (quote : Char) : List Char → List Char
  | '\\' :: c :: cs =>
    match (escapes quote).lookup c with
    | some d => d :: unescape quote cs
    | none => '\\' :: unescape quote (c :: cs)
  | c :: cs => c :: unescape quote cs
  | [] => []

/-- A text without the comment at its end, which follows a blank. -/
def cutComment : List Char → List Char
  | [] => []
  | c :: cs =>
    if Text.isBlank c && (cs.dropWhile Text.isBlank).head? = some '#' then []
    else c :: cutComment cs

/-- The value that a text begins with, and what follows it. -/
def value? (cs : List Char) : Option (List Char × List Char) :=
  match cs with
  | [] => some ([], [])
  | c :: rest =>
    if c = '\'' || c = '"' then (quotedText? c rest).map fun (v, rest) => (unescape c v, rest)
    else
      let text := cutComment (cs.takeWhile (· != '\n'))
      some ((text.reverse.dropWhile Text.isBlank).reverse, cs.dropWhile (· != '\n'))

/-- A text without the word that may stand in front of a variable to export it. -/
def skipExport (cs : List Char) : List Char :=
  if "export".toList.isPrefixOf cs && (cs.drop 6).head?.any isInlineBlank
  then (cs.drop 6).dropWhile isInlineBlank else cs

/-- Can the character stand in a name that is not quoted? -/
def isNameChar (c : Char) : Bool := c != '=' && c != '#' && !Text.isBlank c

/-- The name that a text begins with, if it is not a comment, and what follows. If there is neither,
the answer is where the text stops to make sense. -/
def name? (cs : List Char) : Except (List Char) (Option (List Char) × List Char) :=
  match cs with
  | '#' :: _ => .ok (none, cs)
  | '\'' :: rest =>
    match rest.span (· != '\'') with
    | (c :: name, _ :: rest) => .ok (some (c :: name), rest)
    | _ => .error cs
  | _ =>
    match cs.span isNameChar with
    | ([], _) => .error cs
    | (name, rest) => .ok (some name, rest)

/-- The value after a name, if there is one. -/
def assigned? (cs : List Char) : Except (List Char) (Option (List Char) × List Char) :=
  match cs with
  | '=' :: rest =>
    let rest := rest.dropWhile isInlineBlank
    match value? rest with
    | some (value, rest) => .ok (some value, rest)
    | none => .error rest
  | _ => .ok (none, cs)

/-- A variable with its value at the start of a text, or a comment, and what follows. -/
def statement? (cs : List Char) : Except (List Char) (Binding × List Char) := do
  let (name, rest) ← name? (skipExport cs)
  let (value, rest) ← assigned? (rest.dropWhile isInlineBlank)
  match lineEnd? rest with
  | none => .error rest
  | some after => return (match name with
    | some name => .set (String.ofList name) (value.map String.ofList)
    | none => .none, after)

/-- The first binding of a text and what follows it. -/
def binding (cs : List Char) : Binding × List Char :=
  match cs.dropWhile Text.isBlank with
  | [] => (.none, [])
  | cs =>
    match statement? cs with
    | .ok r => r
    | .error stopped => (.broken, restOfLine stopped)

/-- The bindings of a text, each with the number of the line that it begins in. -/
def bindings (line : Nat) (cs : List Char) : List (Nat × Binding) :=
  if cs.isEmpty then []
  else
    let r := binding cs
    if _h : r.2.length < cs.length then
      (line, r.1) :: bindings (line + (cs.count '\n' - r.2.count '\n')) r.2
    else [(line, r.1)]
termination_by cs.length

/-- A reference to a variable at the start of a text: its name, what stands for it if it is not set,
and what follows. -/
def reference? : List Char → Option (String × String × List Char)
  | '$' :: '{' :: cs =>
    match cs.span fun c => c != '}' && c != ':' with
    | (name, '}' :: rest) => some (String.ofList name, "", rest)
    | (name, ':' :: '-' :: rest) =>
      match rest.span (· != '}') with
      | (default, '}' :: rest) => some (String.ofList name, String.ofList default, rest)
      | _ => none
    | _ => none
  | _ => none

/-- A value with the variables that it refers to. The rest of the text is never longer than what is
allowed. -/
def interpolated (look : String → Option String) : Nat → List Char → List Char
  | 0, cs => cs
  | _, [] => []
  | size + 1, c :: cs =>
    match reference? (c :: cs) with
    | some (name, default, rest) =>
      ((look name).getD default).toList ++ interpolated look size rest
    | none => c :: interpolated look size cs

/-- The variables that a file sets: of each the last value, in the order of the first ones. A
variable without a value is known and empty to those after it. -/
abbrev Variables := List (String × Option String)

/-- Sets a variable. -/
def Variables.put : Variables → String → Option String → Variables
  | [], name, value => [(name, value)]
  | v :: vs, name, value =>
    if v.1 = name then (name, value) :: vs else v :: Variables.put vs name value

/-- What a reference finds: the environment comes before the file. -/
def lookIn (env : Environment) (known : Variables) (name : String) : Option String :=
  match env.lookup name with
  | some value => some value
  | none => (known.lookup name).map (·.getD "")

/-- Adds the variable of a binding to those that are known. -/
def addBinding (env : Environment) (known : Variables) : Binding → Variables
  | .set name value => known.put name (value.map fun v =>
      String.ofList (interpolated (lookIn env known) v.length v.toList))
  | _ => known

/-- A variable that the environment cannot hold. -/
structure Unsettable where
  name : String
deriving Repr, DecidableEq, Inhabited

/-- The sentence about such a variable. -/
def Unsettable.message (u : Unsettable) : String :=
  if u.name.contains '=' then "illegal environment variable name" else "embedded null byte"

/-- Can the environment hold a variable? -/
def isSettable (name value : String) : Bool :=
  !name.contains '=' && !name.contains '\x00' && !value.contains '\x00'

/-- Adds variables to an environment that does not hold them. -/
def addTo (env : Environment) : Variables → Except Unsettable Environment
  | [] => .ok env
  | (name, value) :: vs =>
    match value with
    | some value =>
      if (env.lookup name).isSome then addTo env vs
      else if isSettable name value then addTo (env.set name value) vs
      else .error ⟨name⟩
    | none => addTo env vs

/-- What a file of variables comes to: the lines that cannot be understood, and the environment with
the variables of all others. -/
def load (env : Environment) (text : List Char) : List Nat × Except Unsettable Environment :=
  let bs := bindings 1 (unifyLines text)
  ((bs.filter (·.2 == .broken)).map (·.1),
    addTo env ((bs.map (·.2)).foldl (addBinding env) []))

end ScriptScrub.Config.EnvFile
