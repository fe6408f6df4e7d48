import ScriptScrub.Glob.Matching

/-!
# Pattern lists

Several patterns in a row: of those that match a path the last one decides, and a path that none
matches is not selected.
-/

namespace ScriptScrub.Glob

/-- Patterns in the order in which they were given. -/
structure PatternList where
  patterns : List Pattern
deriving Repr, DecidableEq, Inhabited

namespace PatternList

/-- Does the list select the path? -/
def selects (l : PatternList) (path : String) : Bool :=
  let cs := subject path.toList
  match (l.patterns.filter (·.shape.selects cs)).getLast? with
  | some p => !p.negated
  | none => false

/-- A text without the dots and slashes that lead nowhere. -/
def withoutHere : List Char → List Char
  | '.' :: '/' :: rest => withoutHere rest
  | cs => cs

/-- A pattern as it is configured: without blanks around it and without `./` in front; an anchored
one begins with a slash. -/
def tidy (anchored : Bool) (text : String) : String :=
  let cs := withoutHere (Text.trim text).toList
  if anchored && cs.head? != some '/' then String.ofList ('/' :: cs) else String.ofList cs

/-- Reads the patterns, unless all of them are blank. The first that cannot be read is reported. -/
def read (anchored : Bool) (texts : List String) : Except PatternError (Option PatternList) := do
  let given := (texts.filter fun t => !(Text.trim t).isEmpty).map (tidy anchored)
  if given.isEmpty then return none
  return some ⟨(← given.mapM Pattern.read).filterMap id⟩

end PatternList

end ScriptScrub.Glob
