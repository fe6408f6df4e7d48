import ScriptScrub.FileTree.Walk
import ScriptScrub.Watch.Session

/-!
# Observing files

An observer looks after the files below a root. When it starts it asks the system to report changes
from now on, and tells of all files that are there already. Events that the system brings are told
later on, each in its turn.
-/

namespace ScriptScrub.Watch

/-- What an observer asks of the system. -/
inductive Call where
  /-- Report what happens at or below a place. -/
  | schedule (place : List String)
  | start
  | stop
  /-- Wait until the last reports have come, for some seconds at most. -/
  | join (seconds : Nat)
deriving Repr, DecidableEq, Inhabited

/-- The system as an observer sees it: whether it refuses to report, and what was asked of it. -/
structure Reporter where
  refusal : Option String := none
  calls : List Call := []
deriving Repr, DecidableEq, Inhabited

/-- An observer of the files below the root of its matcher. -/
structure Observer where
  matcher : Path.Matcher
  /-- Somebody is told of events. -/
  listening : Bool := false
  /-- The system reports changes. -/
  running : Bool := false
deriving Repr, DecidableEq, Inhabited

/-- What comes of starting an observer: what it tells, the events that it delivers at once, and why
it has stopped there, if it has. -/
structure Started where
  notices : List Notice := []
  events : List Event := []
  fault : Option LinkLoop := none
deriving Repr, DecidableEq, Inhabited

namespace Observer

/-- The time that the last reports are waited for. -/
def patience : Nat := 5

/-- An observer with the patterns of a watch. -/
def make (root : List String) (s : Config.WatchSettings) : Except Glob.PatternError Observer :=
  return { matcher := ← Path.Matcher.read root s.watchPaths s.ignored s.ignoreDotfiles }

/-- The watched files that are there, in order. A link counts under the name of what it leads to. -/
def initialScan (o : Observer) (files : FileTree) : Except LinkLoop (List String) := do
  let found := files.namesBelow (fun names => o.matcher.accepts (Path.relative names) true)
    o.matcher.root
  let seen ← found.mapM fun names =>
    o.matcher.accepted? files (Path.absolute (o.matcher.root ++ names)) false
  return (seen.filterMap id).mergeSort fun a b => decide (a ≤ b)

/-- The events at the start: each file that is there, then that the scan is over. -/
def scanEvents (paths : List String) : List Event :=
  paths.map (fun p => { kind := .add, path := some p }) ++ [{ kind := .ready }]

/-- Starts to observe. A system that refuses to report changes does not keep the observer from
telling of the files that are there. -/
def start (o : Observer) (files : FileTree) (r : Reporter) : Observer × Reporter × Started :=
  let scheduled := { r with calls := r.calls ++ [.schedule o.matcher.root] }
  let (r, began) : Reporter × Started := match r.refusal with
    | some message => (scheduled, {
        notices := [.notObserving message]
        events := [{ kind := .error, message := some message }] })
    | none => ({ scheduled with calls := scheduled.calls ++ [.start] }, {})
  let o := { o with listening := true, running := o.running || r.refusal.isNone }
  match o.initialScan files with
  | .ok paths => (o, r, { began with events := began.events ++ scanEvents paths })
  | .error fault => (o, r, { began with fault := some fault })

/-- The events that a signal of the system brings, to be told later on. -/
def report (o : Observer) (files : FileTree) (s : Signal) : List Event :=
  if !o.listening then []
  else match s.events files o.matcher with
    | .ok events => events
    | .error fault => [{ kind := .error, message := some fault.message }]

/-- Stops to observe. Nobody is told of events any more. -/
def stop (o : Observer) (r : Reporter) : Observer × Reporter :=
  if o.running then
    ({ o with running := false, listening := false },
      { r with calls := r.calls ++ [.stop, .join patience] })
  else (o, r)

end Observer

end ScriptScrub.Watch
