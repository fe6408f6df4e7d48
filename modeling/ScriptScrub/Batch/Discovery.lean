import ScriptScrub.Config.Settings
import ScriptScrub.FileTree.Walk
import ScriptScrub.Path.Matcher
import ScriptScrub.Text.LetterCase

/-!
# Discovery

The files that a batch is about: those below its root with one of the extensions, except where an
ignore pattern selects the file or a folder on the way to it. Files that are never rewritten are
discovered like all others and marked.
-/

namespace ScriptScrub.Batch

open Config (BatchSettings)

/-- A discovered file. An excluded one is not to be rewritten. -/
structure Task where
  path : String
  excluded : Bool := false
deriving Repr, DecidableEq, Inhabited

/-- A path is excluded if one of the excluded texts is the end of it, or its last component. -/
def isExcluded (settings : BatchSettings) (path : String) : Bool :=
  settings.excludedFiles.any fun e => path.endsWith e || Path.baseName path == e

/-- Does a name end in one of the extensions, whatever the case of their letters? -/
def hasExtension (settings : BatchSettings) (name : String) : Bool :=
  settings.extensions.any fun e => (Text.lower name).endsWith (Text.lower e)

/-- The matcher of a batch at some root. -/
def matcher (settings : BatchSettings) (root : List String) :
    Except Glob.PatternError Path.Matcher :=
  Path.Matcher.read root [] settings.ignoreGlobs settings.ignoreDotfiles

/-- May the walk enter a folder below the root? -/
def isEntered (m : Path.Matcher) (names : List String) : Bool :=
  !m.isIgnored (Path.relative names) true

/-- Is a file below the root, in a folder that was entered, one of the batch? -/
def isCandidate (settings : BatchSettings) (m : Path.Matcher) (names : List String) : Bool :=
  hasExtension settings (names.getLastD "") && !m.isIgnored (Path.relative names) false

/-- The files of a batch in the order of their paths. -/
def tasks (settings : BatchSettings) (files : FileTree) (m : Path.Matcher) : List Task :=
  let found := (files.namesBelow (isEntered m) m.root).filter (isCandidate settings m)
  let paths := found.map fun names => Path.absolute (m.root ++ names)
  (paths.mergeSort fun a b => decide (a ≤ b)).map fun p => ⟨p, isExcluded settings p⟩

end ScriptScrub.Batch
