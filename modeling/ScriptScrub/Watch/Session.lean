import ScriptScrub.Build.Launcher
import ScriptScrub.Watch.Event

/-!
# Watch sessions

How a session goes on with the events that it is told. The first build is requested when the first
scan is over. After that every file that is new or has changed brings a request of its own; a file
that is gone always does. A session that was stopped takes no notice of anything.
-/

namespace ScriptScrub.Watch

/-- What has happened to a file. -/
inductive Change where
  | changed
  | added
  | deleted
deriving Repr, DecidableEq, Inhabited

/-- What a build is requested for. -/
inductive Reason where
  | initial
  | file (change : Change) (path : Option String)
deriving Repr, DecidableEq, Inhabited

/-- A part of an event that may be missing, in words. -/
def shown (s : Option String) : String := s.getD "None"

/-- A reason in words. -/
def Reason.text : Reason → String
  | initial => "initial build"
  | file .changed path => s!"changed {shown path}"
  | file .added path => s!"added {shown path}"
  | file .deleted path => s!"deleted {shown path}"

/-- What a session tells. -/
inductive Notice where
  | starting
  /-- The first scan is over. -/
  | scanned
  | file (change : Change) (path : Option String)
  /-- Something went wrong while watching. -/
  | fault (message : Option String)
  /-- The system does not report changes. -/
  | notObserving (message : String)
  | stopped
  | build (n : Build.Notice)
deriving Repr, DecidableEq, Inhabited

/-- A notice in words, if it is worth any. -/
def Notice.line? : Notice → Option LogLine
  | starting => some ⟨.info, "Starting file watcher..."⟩
  | scanned => some ⟨.info, "Initial scan complete. Watching for changes..."⟩
  | file .changed path => some ⟨.info, s!"File changed: {shown path}"⟩
  | file .added path => some ⟨.info, s!"New file detected: {shown path}"⟩
  | file .deleted path => some ⟨.info, s!"File deleted: {shown path}"⟩
  | fault message => some ⟨.error, s!"Watcher error: {shown message}"⟩
  | notObserving message => some ⟨.debug, s!"Observer failed to start: {message}"⟩
  | stopped => some ⟨.info, "File watcher stopped."⟩
  | build n => n.line?

/-- How far a session is. -/
inductive Phase where
  | initializing
  | ready
  | stopped
deriving Repr, DecidableEq, Inhabited

/-- The name of a phase. -/
def Phase.name : Phase → String
  | initializing => "initializing"
  | ready => "ready"
  | stopped => "stopped"

/-- A session over its whole life. -/
structure Session where
  watchedGlobs : List String := []
  ignoredGlobs : List String := []
  initialBuildDone : Bool := false
  phase : Phase := .initializing
  buildsRequested : Nat := 0
deriving Repr, DecidableEq, Inhabited

namespace Session

/-- A build is requested. -/
def requesting (s : Session) : Session := { s with buildsRequested := s.buildsRequested + 1 }

/-- The first scan is over; the first time this requests the first build. -/
def scanned (s : Session) : Session × Option Reason :=
  let s := { s with phase := .ready }
  if s.initialBuildDone then (s, none)
  else ({ s with initialBuildDone := true }.requesting, some .initial)

/-- Something has happened to a file. -/
def changed (s : Session) (c : Change) (path : Option String) :
    Session × List Notice × Option Reason :=
  (s.requesting, [.file c path], some (.file c path))

/-- Takes an event: what the session tells about it, and the build that it requests. -/
def handle (s : Session) (e : Event) : Session × List Notice × Option Reason :=
  if s.phase = .stopped then (s, [], none)
  else match e.kind with
    | .ready =>
      let (s, reason) := s.scanned
      (s, [.scanned], reason)
    | .change => if s.initialBuildDone then s.changed .changed e.path else (s, [], none)
    | .add => if s.initialBuildDone then s.changed .added e.path else (s, [], none)
    | .unlink => s.changed .deleted e.path
    | .error => (s, [.fault e.message], none)

/-- Ends the session. -/
def close (s : Session) : Session × List Notice :=
  if s.phase = .stopped then (s, []) else ({ s with phase := .stopped }, [.stopped])

end Session

end ScriptScrub.Watch
