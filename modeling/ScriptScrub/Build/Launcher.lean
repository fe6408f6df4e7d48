import ScriptScrub.Config.Settings
import ScriptScrub.Log
import ScriptScrub.Text.Quoted

/-!
# Build requests

Which builds a launcher starts for the requests that it gets. In parallel every request starts a
build. Otherwise one build is in flight at a time, and all requests that come meanwhile share one
more build, which starts when the one in flight has been settled and carries the last reason.

A build is in flight from its start until it is settled, which is some time after it has ended.
-/

namespace ScriptScrub.Build

open Config (OverlapPolicy)

/-- One build that was started. The sequence counts builds from one. -/
structure Invocation where
  sequence : Nat
  /-- What the build was requested for. -/
  reason : String := ""
  pid : Option Nat := none
  exitCode : Option Int := none
  finished : Bool := false
deriving Repr, DecidableEq, Inhabited

/-- Did the build end well? -/
def Invocation.succeeded (i : Invocation) : Bool := i.exitCode == some 0

/-- How a build ends. -/
inductive Ending where
  /-- Its process is over. -/
  | exited (code : Int)
  /-- The system did not start its process. -/
  | refused (message : String)
  /-- The launcher itself failed. -/
  | crashed (message : String)
  | cancelled
deriving Repr, DecidableEq, Inhabited

/-- What a launcher tells. -/
inductive Notice where
  /-- A request has to wait for the build in flight. -/
  | deferred
  | begun
  | ended (e : Ending)
deriving Repr, DecidableEq, Inhabited

/-- A notice in words; the end of a cancelled build is not worth any. -/
def Notice.line? : Notice → Option LogLine
  | deferred => some ⟨.debug, "Build in progress, queueing one trailing rebuild"⟩
  | begun => some ⟨.info, "File change detected, rebuilding..."⟩
  | ended (.exited code) =>
    if code = 0 then some ⟨.info, "Build completed successfully"⟩
    else some ⟨.error, s!"Build failed with code {code}"⟩
  | ended (.refused message) => some ⟨.error, s!"Build failed to start: {message}"⟩
  | ended (.crashed message) =>
    some ⟨.error, s!"Build task crashed: RuntimeError({Text.quoted message})"⟩
  | ended .cancelled => none

/-- All builds, those in flight, and the reason for which one more build is due. -/
structure Launcher where
  policy : OverlapPolicy := .parallel
  invocations : List Invocation := []
  /-- The sequence numbers of the builds in flight. -/
  inFlight : List Nat := []
  pending : Option String := none
deriving Repr, DecidableEq, Inhabited

namespace Launcher

/-- The sequence number of the next build. -/
def next (l : Launcher) : Nat := l.invocations.length + 1

/-- Starts a build. -/
def start (l : Launcher) (reason : String) : Launcher :=
  { l with
    invocations := l.invocations ++ [{ sequence := l.next, reason }]
    inFlight := l.inFlight ++ [l.next] }

/-- Does a request have to wait? -/
def defers (l : Launcher) : Bool := l.policy == .coalesce && !l.inFlight.isEmpty

/-- Takes a request, and says which build it has started, if any. -/
def request (l : Launcher) (reason : String) : Launcher × Option Nat :=
  if l.defers then ({ l with pending := some reason }, none) else (l.start reason, some l.next)

/-- Changes what is known of the build `n`. -/
def update (l : Launcher) (n : Nat) (f : Invocation → Invocation) : Launcher :=
  { l with invocations := l.invocations.map fun i => if i.sequence = n then f i else i }

/-- The build `n` has a process. -/
def spawned (l : Launcher) (n pid : Nat) : Launcher :=
  l.update n fun i => { i with pid := some pid }

/-- The build `n` has ended. One that crashed or was cancelled never finishes. -/
def ended (l : Launcher) (n : Nat) : Ending → Launcher
  | .exited code => l.update n fun i => { i with exitCode := some code, finished := true }
  | .refused _ => l.update n fun i => { i with finished := true }
  | .crashed _ | .cancelled => l

/-- Settles the build `n`, and says which build is started for the requests that have waited. None
is after a build that was cancelled. -/
def settled (l : Launcher) (n : Nat) (e : Ending) : Launcher × Option Nat :=
  let l := { l with inFlight := l.inFlight.erase n }
  match e, l.pending with
  | .cancelled, _ => (l, none)
  | _, some reason =>
    if l.inFlight.isEmpty then (({ l with pending := none } : Launcher).start reason, some l.next)
    else (l, none)
  | _, none => (l, none)

end Launcher

end ScriptScrub.Build
