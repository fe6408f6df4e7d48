/-!
# Processes of builds

The processes that the system runs for builds. It is laid down beforehand which of the next commands
fail to start.
-/

namespace ScriptScrub.Build

/-- Why a command is not started. -/
inductive SpawnFault where
  /-- The system refuses to. -/
  | refused (message : String)
  /-- The launcher fails at it. -/
  | crashed (message : String)
deriving Repr, DecidableEq, Inhabited

/-- A process, and the build that it belongs to. -/
structure Process where
  build : Nat
  running : Bool := true
deriving Repr, DecidableEq, Inhabited

/-- A command to be run in a folder. -/
structure Command where
  words : List String
  folder : Option String := none
deriving Repr, DecidableEq, Inhabited

/-- All processes in the order in which they were started, all commands that were to be run, and
what will come of the next ones. -/
structure Processes where
  faults : List SpawnFault := []
  commands : List Command := []
  started : List Process := []
deriving Repr, DecidableEq, Inhabited

namespace Processes

/-- The number that the first process is known by. -/
def firstPid : Nat := 1000

/-- Runs a command for a build; the answer is the number of its process. -/
def spawn (p : Processes) (command : Command) (build : Nat) :
    Processes × Except SpawnFault Nat :=
  let p := { p with commands := p.commands ++ [command] }
  match p.faults with
  | fault :: faults => ({ p with faults }, .error fault)
  | [] => ({ p with started := p.started ++ [⟨build, true⟩] }, .ok (firstPid + p.started.length))

/-- Ends the process at a place in the order, if there is one that still runs; the answer is the
build that it belongs to. -/
def finish (p : Processes) (k : Nat) : Processes × Option Nat :=
  match p.started[k]? with
  | some ⟨build, true⟩ => ({ p with started := p.started.set k ⟨build, false⟩ }, some build)
  | _ => (p, none)

/-- The place of the running process of a build. -/
def placeOf? (p : Processes) (build : Nat) : Option Nat :=
  p.started.findIdx? fun q => q.build == build && q.running

end Processes

end ScriptScrub.Build
