import ScriptScrub.Config.Environment
import ScriptScrub.FileTree.Lookup
import ScriptScrub.Log
import ScriptScrub.Yaml.Document

/-!
# Loading the configuration

The settings come from up to three documents and from the environment, each adding to those before:
the one in the home folder, the one of the project, one that is asked for, and last the variables.
A document that cannot be read is told about and left out.
-/

namespace ScriptScrub.Config

/-- The name of a project's document. -/
def projectDocument : String := ".buildsweep.yaml"

/-- The way from the home folder to the user's document. -/
def homeDocument : List String := [".buildsweep", "config.yaml"]

/-- Why a document is left out. -/
inductive Unusable where
  | file (path : String) (e : FileError)
  | document (f : Yaml.Fault)
deriving Repr, DecidableEq

/-- The sentence about the reason. -/
def Unusable.message : Unusable → String
  | file path e => e.message path
  | document f => f.message

/-- Something that loading tells. -/
inductive Notice where
  | loaded (path : String)
  /-- The document is no table. -/
  | noTable (path : String)
  | failed (path : String) (why : Unusable)
  /-- A variable has the form of a setting but names none. -/
  | unknownVariable (name : String)
deriving Repr, DecidableEq

/-- A notice in words. -/
def Notice.line : Notice → LogLine
  | loaded path => ⟨.debug, s!"Loaded config from {path}"⟩
  | noTable path => ⟨.warning, s!"Ignoring config {path}: expected a mapping"⟩
  | failed path why => ⟨.warning, s!"Failed to load config from {path}: {why.message}"⟩
  | unknownVariable name => ⟨.debug, s!"Ignoring unknown config variable {name}"⟩

/-- Why there are no settings. -/
inductive LoadError where
  /-- A document is no text. -/
  | notText (content : Bytes)
  /-- A value of a document cannot be had. -/
  | badValue (f : Yaml.Fault)
  /-- A key of a document is no text. -/
  | badKey
  /-- The values are not what the settings need. -/
  | invalid (violations : List Violation)
deriving Repr, DecidableEq

/-- The sentence about an error. -/
def LoadError.message : LoadError → String
  | notText content => Text.faultMessage content
  | badValue f => f.message
  | badKey => "keywords must be strings"
  | invalid violations => s!"{violations.length} values are not what the settings need"

/-- What a document adds, if it is there and can be used, and what is told about it. -/
def documentAt (files : FileTree) (here : List String) (path : String) :
    Except LoadError (Entries × List Notice) :=
  if !files.leads here path then .ok ([], [])
  else match files.read here path with
    | .error e => .ok ([], [.failed path (.file path e)])
    | .ok content =>
      match Text.decodeChars? content with
      | none => .error (.notText content)
      | some cs =>
        match Yaml.read cs with
        | .error f =>
          if f.isOfValue then .error (.badValue f) else .ok ([], [.failed path (.document f)])
        | .ok (.table es) => .ok (es, [.loaded path])
        | .ok v => .ok ([], [if v.isEmpty then .loaded path else .noTable path])

/-- Adds documents one after the other to what is there. -/
def mergeDocuments (files : FileTree) (here : List String) :
    Entries → List String → List Notice × Except LoadError Entries
  | entries, [] => ([], .ok entries)
  | entries, path :: paths =>
    match documentAt files here path with
    | .error e => ([], .error e)
    | .ok (more, told) =>
      let (rest, result) := mergeDocuments files here (merge entries more) paths
      (told ++ rest, result)

/-- The paths of the documents, the weakest first. -/
def documentPaths (here home : List String) (asked : Option String) : List String :=
  [Path.absolute (home ++ homeDocument), Path.absolute (here ++ [projectDocument])] ++
    (asked.filter (!·.isEmpty)).toList.map Path.tidy

/-- The settings that some entries make up. -/
def settingsOf (entries : Entries) : Except LoadError Settings :=
  if entries.all (·.1.isText) then (Settings.read entries).mapError .invalid else .error .badKey

/-- Loads the settings for the folder `here`, and tells what happened. -/
def load (files : FileTree) (here home : List String) (asked : Option String)
    (env : Environment) : List Notice × Except LoadError Settings :=
  match mergeDocuments files here [] (documentPaths here home asked) with
  | (told, .error e) => (told, .error e)
  | (told, .ok entries) =>
    (told ++ (unknownVariables env).map .unknownVariable,
      settingsOf (merge entries (overrides env)))

end ScriptScrub.Config
