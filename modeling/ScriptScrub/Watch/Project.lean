import ScriptScrub.Watch.Watcher

/-!
# Watched projects

A project is built whenever the files below its root change: a watcher with an observer of its own
for every start, over files that somebody else changes.
-/

namespace ScriptScrub.Watch

/-- Why a start does not come to its end. -/
inductive StartFault where
  | badPattern (e : Glob.PatternError)
  | loop (l : LinkLoop)
deriving Repr, DecidableEq

/-- The files of a project and what looks after them. -/
structure Project where
  settings : Config.WatchSettings
  root : List String
  files : FileTree
  watcher : Watcher Observer
  reporter : Reporter := {}

namespace Project

/-- A project that is not watched yet. -/
def make (settings : Config.WatchSettings) (root : List String) (files : FileTree)
    (reporter : Reporter) : Except Build.NoCommand Project :=
  return { settings, root, files, reporter, watcher := ← Watcher.make settings root }

/-- Starts to watch. The observer delivers its first events at once, also where it then fails. -/
def start (p : Project) : Project × List Notice × Option StartFault :=
  let (w, told) := p.watcher.starting
  match Observer.make p.root p.settings with
  | .error e => ({ p with watcher := w }, told, some (.badPattern e))
  | .ok o =>
    let (o, reporter, s) := o.start p.files p.reporter
    let (watcher, more) := w.observe o s
    ({ p with watcher, reporter }, told ++ more, s.fault.map .loop)

/-- Starts to watch until a stop is requested. A start that fails ends the run. -/
def run (p : Project) : Project × List Notice :=
  let (p, told, fault) := p.start
  let run := if fault.isSome then Run.over else .waiting
  ({ p with watcher := { p.watcher with run := some run } }, told)

/-- Takes a signal of the system. -/
def report (p : Project) (s : Signal) : Project × List Notice :=
  match p.watcher.observer with
  | none => (p, [])
  | some o =>
    let (watcher, told) := p.watcher.handleAll (o.report p.files s)
    ({ p with watcher }, told)

/-- Stops the observer that a watcher has done with. -/
def released (p : Project) (r : Watcher Observer × List Notice × Option Observer) :
    Project × List Notice :=
  let (watcher, told, o) := r
  ({ p with watcher, reporter := (o.map fun o => (o.stop p.reporter).2).getD p.reporter }, told)

/-- Ends the session. -/
def close (p : Project) : Project × List Notice := p.released p.watcher.close

/-- Asks the run to stop. -/
def requestStop (p : Project) : Project × List Notice := p.released p.watcher.requestStop

/-- Takes all turns of the builds. -/
def settle (p : Project) : Project × List Notice :=
  let (watcher, told) := p.watcher.settle
  ({ p with watcher }, told)

end Project

end ScriptScrub.Watch
