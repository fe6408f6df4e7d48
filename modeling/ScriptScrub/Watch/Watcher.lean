import ScriptScrub.Build.Loop
import ScriptScrub.Watch.Observer

/-!
# Watching and building

A watcher runs builds for the events that its observer tells. Starting it again puts another
observer in the place of the one before, and a stop that is requested then is one of the new start.
-/

namespace ScriptScrub.Watch

/-- A run of a watcher from its start until it is asked to stop. -/
inductive Run where
  | waiting
  /-- The watcher was started anew, so nobody will ask this run to stop. -/
  | stuck
  | over
deriving Repr, DecidableEq, Inhabited

/-- A session with its builds and its observer. -/
structure Watcher (ω : Type) where
  session : Session
  builds : Build.Loop
  observer : Option ω := none
  /-- The latest run. -/
  run : Option Run := none

namespace Watcher

variable {ω : Type}

/-- A watcher that has not started. -/
def make (s : Config.WatchSettings) (root : List String) : Except Build.NoCommand (Watcher ω) :=
  return {
    session := { watchedGlobs := s.watchPaths, ignoredGlobs := s.ignored }
    builds := ← Build.Loop.make ⟨s.buildCommand, some (Path.absolute root)⟩ s.overlapPolicy }

/-- Takes an event. -/
def handle (w : Watcher ω) (e : Event) : Watcher ω × List Notice :=
  match w.session.handle e with
  | (session, notices, some reason) =>
    let (builds, told, _) := w.builds.request reason.text
    ({ w with session, builds }, notices ++ told.map .build)
  | (session, notices, none) => ({ w with session }, notices)

/-- Takes events one after the other. -/
def handleAll (w : Watcher ω) : List Event → Watcher ω × List Notice
  | [] => (w, [])
  | e :: es =>
    let (w, first) := w.handle e
    let (w, rest) := w.handleAll es
    (w, first ++ rest)

/-- Begins to start: the session is set back, and requests to stop are not for older runs. -/
def starting (w : Watcher ω) : Watcher ω × List Notice :=
  let run := match w.run with
    | some .waiting => some .stuck
    | run => run
  ({ w with session := { w.session with phase := .initializing }, run }, [.starting])

/-- Goes on with an observer that has started. -/
def observe (w : Watcher ω) (o : ω) (s : Started) : Watcher ω × List Notice :=
  let (w, told) := ({ w with observer := some o } : Watcher ω).handleAll s.events
  (w, s.notices ++ told)

/-- Ends the session. The answer holds the observer that is to be stopped. -/
def close (w : Watcher ω) : Watcher ω × List Notice × Option ω :=
  let (session, notices) := w.session.close
  ({ w with session, observer := none }, notices, w.observer)

/-- Asks the run to stop. Without one, nothing happens. -/
def requestStop (w : Watcher ω) : Watcher ω × List Notice × Option ω :=
  match w.run with
  | some .waiting => ({ w with run := some .over } : Watcher ω).close
  | _ => (w, [], none)

/-- Takes all turns of the builds. -/
def settle (w : Watcher ω) : Watcher ω × List Notice :=
  let (builds, notices) := w.builds.run
  ({ w with builds }, notices.map .build)

end Watcher

end ScriptScrub.Watch
