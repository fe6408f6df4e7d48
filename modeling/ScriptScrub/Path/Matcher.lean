import ScriptScrub.FileTree.Resolve
import ScriptScrub.Glob.PatternList

/-!
# Matching paths below a root

A matcher looks at paths as they are seen from its root. A path matches if it leads strictly below
the root, no ignore pattern selects it and, unless it is a directory, an include pattern does.
-/

namespace ScriptScrub.Path

/-- The root and the patterns of a matcher, as they were given and as they were read. -/
structure Matcher where
  root : List String
  includePatterns : List String
  ignorePatterns : List String
  included : Option Glob.PatternList
  ignored : Option Glob.PatternList
deriving Repr, DecidableEq, Inhabited

namespace Matcher

/-- The pattern that selects every name with a dot in front. -/
def dotfiles : String := ".*"

/-- The ignore patterns, dotfiles being added at the end unless they are there. -/
def withDotfiles (ignoreDotfiles : Bool) (ignore : List String) : List String :=
  if ignoreDotfiles && !ignore.contains dotfiles then ignore ++ [dotfiles] else ignore

/-- Reads the patterns of a matcher. Include patterns are anchored at the root. -/
def read (root : List String) (includes ignores : List String) (ignoreDotfiles : Bool) :
    Except Glob.PatternError Matcher := do
  let ignores := withDotfiles ignoreDotfiles ignores
  return {
    root
    includePatterns := includes
    ignorePatterns := ignores
    included := ← Glob.PatternList.read true includes
    ignored := ← Glob.PatternList.read false ignores }

/-- The way from the root to a place below it. -/
def below? (m : Matcher) (place : List String) : Option (List String) :=
  if m.root.isPrefixOf place then some (place.drop m.root.length) else none

/-- The path seen from the root, unless it leads elsewhere. -/
def relative (m : Matcher) (files : FileTree) (path : String) :
    Except LinkLoop (Option String) := do
  if path.contains '\x00' then return none
  return (m.below? (← files.resolve m.root path)).map Path.relative

/-- Does an ignore pattern select the path? A directory is looked at with a slash at its end. -/
def isIgnored (m : Matcher) (path : String) (isDirectory : Bool) : Bool :=
  match m.ignored with
  | none => false
  | some l => l.selects (if isDirectory && !path.endsWith "/" then path ++ "/" else path)

/-- Does an include pattern select the path? Without any, all paths are included. -/
def isIncluded (m : Matcher) (path : String) : Bool :=
  match m.included with
  | none => true
  | some l => l.selects path

/-- Is a path seen from the root one to look at? -/
def accepts (m : Matcher) (path : String) (isDirectory : Bool) : Bool :=
  path != "." && !m.isIgnored path isDirectory && (isDirectory || m.isIncluded path)

/-- The path seen from the root, if it is one to look at. -/
def accepted? (m : Matcher) (files : FileTree) (path : String) (isDirectory : Bool) :
    Except LinkLoop (Option String) :=
  return (← m.relative files path).filter (m.accepts · isDirectory)

end Matcher

end ScriptScrub.Path
