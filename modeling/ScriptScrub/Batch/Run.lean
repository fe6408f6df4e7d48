import ScriptScrub.Batch.Discovery
import ScriptScrub.Batch.Notice
import ScriptScrub.Sanitizer.Sanitize

/-!
# Batch runs

A run reads, sanitizes and writes the discovered files one after the other, in place and without a
copy. A file that fails does not stop the run.
-/

namespace ScriptScrub.Batch

open Config (BatchSettings SanitizerSettings)

/-- How a file ended. -/
inductive Outcome where
  /-- The file is excluded and was not looked at. -/
  | skipped (path : String)
  /-- The file was sanitized; `changed` if its text is another now. -/
  | processed (path : String) (changed : Bool)
  /-- The file was left as it is. -/
  | errored (path : String) (failure : Failure)
deriving Repr, DecidableEq

namespace Outcome

/-- The path of the file. -/
def path : Outcome → String
  | skipped p | processed p _ | errored p _ => p

/-- The class of the outcome. -/
def status : Outcome → Status
  | skipped _ => .skipped
  | processed _ _ => .processed
  | errored _ _ => .errored

/-- Is the text another one after sanitizing? -/
def changed : Outcome → Bool
  | processed _ c => c
  | _ => false

/-- Why the file failed. -/
def failure? : Outcome → Option Failure
  | errored _ f => some f
  | _ => none

@[simp] theorem status_skipped (p : String) : (skipped p).status = .skipped := rfl
@[simp] theorem status_processed (p : String) (c : Bool) :
    (processed p c).status = .processed := rfl
@[simp] theorem status_errored (p : String) (f : Failure) : (errored p f).status = .errored := rfl
@[simp] theorem changed_skipped (p : String) : (skipped p).changed = false := rfl
@[simp] theorem changed_processed (p : String) (c : Bool) : (processed p c).changed = c := rfl
@[simp] theorem changed_errored (p : String) (f : Failure) : (errored p f).changed = false := rfl

end Outcome

/-- What a run does with a file. -/
inductive Access where
  | read
  | write
deriving Repr, DecidableEq, Inhabited

/-- How files are found and sanitized. -/
structure Runner where
  settings : BatchSettings := {}
  sanitizer : SanitizerSettings := {}
  grammar : Grammar
  /-- The stack that files are sanitized on. -/
  room : Scope.Room := .endless
  /-- Nothing is written. -/
  dryRun : Bool := false
  /-- The machine does not let the file at a path be read, or written to. -/
  denied : Access → String → Bool := fun _ _ => false
  /-- What others do to the files while the file at some path is being sanitized. -/
  meanwhile : String → FileTree → FileTree := fun _ files => files

/-- The files after some work, and what was told about it. -/
structure Progress where
  files : FileTree
  notices : List Notice := []

/-- A file that failed, told about. -/
def failed (files : FileTree) (path : String) (failure : Failure) : Progress × Outcome :=
  (⟨files, [.failed path failure]⟩, .errored path failure)

/-- The content of the file that a path leads to, if it may be read. -/
def Runner.read (r : Runner) (files : FileTree) (here : List String) (path : String) :
    Except FileError Bytes :=
  if r.denied .read path then .error .denied else files.read here path

/-- Gives the file that a path leads to another content, if it may be written to. -/
def Runner.write (r : Runner) (files : FileTree) (here : List String) (path : String)
    (content : Bytes) : Except FileError FileTree :=
  if r.denied .write path then .error .denied else files.write here path content

/-- Sanitizes the text of the file at a path and writes the result, unless it is the same text or
nothing is to be written. -/
def Runner.rewrite (r : Runner) (files : FileTree) (here : List String) (path text : String) :
    Except Sanitizer.Breakdown (Progress × Outcome) :=
  match Sanitizer.sanitizeWith r.grammar r.grammar r.sanitizer (text.toList.map (·.toNat)) path
    r.room with
  | .error e => .error e
  | .ok result =>
    let files := r.meanwhile path files
    match result with
    | .error failure => .ok (failed files path failure)
    | .ok s =>
      let changed := s.code != text
      let notice := .processed path s.removedCalls s.removedComments
      if changed && !r.dryRun then
        match r.write files here path (Text.encode s.code) with
        | .ok files => .ok (⟨files, [notice]⟩, .processed path changed)
        | .error e => .ok (failed files path ⟨path, .unwritable (e.message (Path.tidy path)), none⟩)
      else .ok (⟨files, [notice]⟩, .processed path changed)

/-- Processes one file. -/
def Runner.process (r : Runner) (files : FileTree) (here : List String) (task : Task) :
    Except Sanitizer.Breakdown (Progress × Outcome) :=
  if task.excluded then .ok (⟨files, [.excluded task.path]⟩, .skipped task.path)
  else match r.read files here task.path with
    | .error e => .ok (failed files task.path
        ⟨task.path, .unreadable (e.message (Path.tidy task.path)), none⟩)
    | .ok content =>
      match Text.decode? content with
      | none => .ok (failed files task.path
          ⟨task.path, .unreadable (Text.faultMessage content), none⟩)
      | some text => r.rewrite files here task.path text

/-- Why a run ends without a result. -/
inductive RunError where
  /-- The root does not exist. -/
  | noDirectory (path : String)
  | badPattern (e : Glob.PatternError)
  | loop (l : LinkLoop)
  | breakdown (e : Sanitizer.Breakdown)
deriving Repr, DecidableEq

/-- The sentence about an error. -/
def RunError.message : RunError → String
  | noDirectory path => s!"Directory \"{path}\" does not exist"
  | badPattern e => e.message
  | loop l => l.message
  | breakdown e => e.message

/-- A run between two files: the files as they are, what was told, how the files so far ended, and
the counters. -/
structure Tally where
  files : FileTree
  notices : List Notice
  outcomes : List Outcome := []
  stats : Stats

/-- Takes down how a file ended. -/
def Tally.add (t : Tally) (done : Progress) (outcome : Outcome) : Tally :=
  ⟨done.files, t.notices ++ done.notices, t.outcomes ++ [outcome],
    t.stats.record outcome.status outcome.changed⟩

/-- Processes files one after the other. A breakdown ends the run where it stands. -/
def Runner.processAll (r : Runner) (here : List String) :
    Tally → List Task → Tally × Option Sanitizer.Breakdown
  | tally, [] => (tally, none)
  | tally, task :: tasks =>
    match r.process tally.files here task with
    | .error e => (tally, some e)
    | .ok (done, outcome) => r.processAll here (tally.add done outcome) tasks

/-- The discovered files below a root, with the place of the root. -/
def Runner.discover (r : Runner) (files : FileTree) (here : List String) (root : String) :
    Except RunError (List String × List Task) := do
  let place ← (files.resolve here root).mapError .loop
  let m ← (matcher r.settings place).mapError .badPattern
  return (place, tasks r.settings files m)

/-- Where a run over some files below a place begins. -/
def Runner.start (r : Runner) (files : FileTree) (place : List String) (tasks : List Task) :
    Tally where
  files
  notices :=
    let root := Path.absolute place
    [.discovered tasks.length root, .started tasks.length root r.dryRun]
  stats := { total := tasks.length }

/-- A run that has ended. -/
structure Ended where
  files : FileTree
  notices : List Notice
  /-- The outcomes that the runner holds now. -/
  held : List Outcome
  result : Except RunError Stats

/-- A run over the files below a root, on a runner that holds the outcomes of an earlier run. They
are given up when the work on the files begins. -/
def Runner.runHolding (r : Runner) (held : List Outcome) (files : FileTree) (here : List String)
    (root : String) : Ended :=
  if !files.leads here root then ⟨files, [], held, .error (.noDirectory root)⟩
  else match r.discover files here root with
    | .error e => ⟨files, [], held, .error e⟩
    | .ok (place, tasks) =>
      match r.processAll here (r.start files place tasks) tasks with
      | (tally, some e) => ⟨tally.files, tally.notices, tally.outcomes, .error (.breakdown e)⟩
      | (tally, none) =>
        ⟨tally.files, tally.notices ++ [.finished tally.stats], tally.outcomes, .ok tally.stats⟩

/-- A run over the files below a root. -/
def Runner.run (r : Runner) (files : FileTree) (here : List String) (root : String) :
    Progress × Except RunError (Stats × List Outcome) :=
  let ended := r.runHolding [] files here root
  (⟨ended.files, ended.notices⟩, ended.result.map fun stats => (stats, ended.held))

/-- A run that is asked for: the runner as it is set up at that time, the files, and the root. -/
structure Request where
  runner : Runner
  files : FileTree
  here : List String := []
  root : String

/-- The runs of one runner. Each finds held what the run before it left. -/
def runEach : List Outcome → List Request → List Ended
  | _, [] => []
  | held, q :: qs =>
    let ended := q.runner.runHolding held q.files q.here q.root
    ended :: runEach ended.held qs

end ScriptScrub.Batch
