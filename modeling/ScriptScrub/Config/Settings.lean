import ScriptScrub.Config.Check
import ScriptScrub.Edit.Basic

/-!
# Settings

The settings of the three parts of the program with their defaults, and how each is read from an
unchecked table. Names that no setting has are ignored.
-/

namespace ScriptScrub.Config

/-- Which rewrites the sanitizer applies, and to which calls. -/
structure SanitizerSettings where
  rules : List Rule := Rule.all
  /-- Identifiers whose method calls are diagnostic calls. -/
  diagnosticObjects : List String := ["console"]
  /-- Diagnostic methods that are never removed. -/
  preservedSeverities : List String := ["error", "warn"]
deriving Repr, DecidableEq, Inhabited

/-- Which files of a directory are sanitized. -/
structure BatchSettings where
  extensions : List String := [".js", ".jsx", ".ts", ".tsx"]
  ignoreGlobs : List String := ["node_modules/", "dist/", "build/"]
  /-- Ends of the paths of files that are never rewritten. -/
  excludedFiles : List String := ["main.js"]
  ignoreDotfiles : Bool := true
deriving Repr, DecidableEq, Inhabited

/-- What happens to a build request while a build is running. -/
inductive OverlapPolicy where
  /-- Every request starts a build. -/
  | parallel
  /-- One build runs; all requests meanwhile share one more build after it. -/
  | coalesce
deriving Repr, DecidableEq, Inhabited

/-- The name of a policy in a configuration. -/
def OverlapPolicy.name : OverlapPolicy → String
  | parallel => "parallel"
  | coalesce => "coalesce"

/-- Every policy, in the order in which they are listed. -/
def OverlapPolicy.all : List OverlapPolicy := [parallel, coalesce]

/-- The policy of a given name. -/
def OverlapPolicy.ofName? (s : String) : Option OverlapPolicy := all.find? (·.name == s)

/-- What is watched and what is run on a change. -/
structure WatchSettings where
  watchPaths : List String := ["lib/**/*.js", "main.js"]
  ignored : List String := ["node_modules/", "dist/", "build/"]
  buildCommand : List String := ["node", "build.js"]
  overlapPolicy : OverlapPolicy := .parallel
  ignoreDotfiles : Bool := true
deriving Repr, DecidableEq, Inhabited

/-- All settings. -/
structure Settings where
  sanitizer : SanitizerSettings := {}
  batch : BatchSettings := {}
  watch : WatchSettings := {}
deriving Repr, DecidableEq, Inhabited

/-- Reads a list of texts. -/
def texts : Value → Checked (List String) := Value.asList Value.asText

/-- Reads the sanitizer's settings. -/
def SanitizerSettings.read (v : Value) : Checked SanitizerSettings := do
  let es ← v.asEntries
  let d : SanitizerSettings := {}
  Checked.ap (Checked.ap (Checked.ap (.ok SanitizerSettings.mk)
    (es.optional "rules" (Value.asList (Value.asChoice Rule.ofName?)) d.rules))
    (es.optional "diagnostic_objects" texts d.diagnosticObjects))
    (es.optional "preserved_severities" texts d.preservedSeverities)

/-- Reads the settings of a batch. -/
def BatchSettings.read (v : Value) : Checked BatchSettings := do
  let es ← v.asEntries
  let d : BatchSettings := {}
  Checked.ap (Checked.ap (Checked.ap (Checked.ap (.ok BatchSettings.mk)
    (es.optional "extensions" texts d.extensions))
    (es.optional "ignore_globs" texts d.ignoreGlobs))
    (es.optional "excluded_files" texts d.excludedFiles))
    (es.optional "ignore_dotfiles" Value.asFlag d.ignoreDotfiles)

/-- Reads the settings of a watch. -/
def WatchSettings.read (v : Value) : Checked WatchSettings := do
  let es ← v.asEntries
  let d : WatchSettings := {}
  Checked.ap (Checked.ap (Checked.ap (Checked.ap (Checked.ap (.ok WatchSettings.mk)
    (es.optional "watch_paths" texts d.watchPaths))
    (es.optional "ignored" texts d.ignored))
    (es.optional "build_command" texts d.buildCommand))
    (es.optional "overlap_policy" (Value.asChoice OverlapPolicy.ofName?) d.overlapPolicy))
    (es.optional "ignore_dotfiles" Value.asFlag d.ignoreDotfiles)

/-- Reads all settings from the entries of a document. -/
def Settings.read (es : Entries) : Checked Settings :=
  let d : Settings := {}
  Checked.ap (Checked.ap (Checked.ap (.ok Settings.mk)
    (es.optional "sanitizer" SanitizerSettings.read d.sanitizer))
    (es.optional "batch" BatchSettings.read d.batch))
    (es.optional "watch" WatchSettings.read d.watch)

end ScriptScrub.Config
