import ScriptScrub.Build.Launcher
import ScriptScrub.Build.Processes

/-!
# The turns of builds

Builds go on in turns that are taken one after the other: a build begins, its process is over, the
build is settled. A turn may bring further ones, which queue up at the end. Taking turns comes to an
end, as each turn brings less work than it is.
-/

namespace ScriptScrub.Build

/-- Something that is to be done. -/
inductive Turn where
  /-- The build begins with its command. -/
  | begin (build : Nat)
  /-- The process of the build is over. -/
  | exited (build : Nat) (code : Int)
  /-- The build has ended and is settled. -/
  | settle (build : Nat) (e : Ending)
  /-- Whoever waits looks whether a build is in flight. -/
  | look
deriving Repr, DecidableEq, Inhabited

/-- Someone who waits until no build is in flight. -/
inductive Wait where
  /-- Some builds were in flight at the last look; these of them have not been settled yet. -/
  | on (builds : List Nat)
  | over
deriving Repr, DecidableEq, Inhabited

/-- A launcher with its processes and the turns that are due. -/
structure Loop where
  command : Command
  launcher : Launcher := {}
  processes : Processes := {}
  turns : List Turn := []
  wait : Option Wait := none
deriving Repr, DecidableEq

/-- There is nothing to run. -/
structure NoCommand where
deriving Repr, DecidableEq

/-- The sentence about it. -/
def NoCommand.message (_ : NoCommand) : String := "Build command must not be empty"

namespace Loop

/-- A loop without any builds yet. -/
def make (command : Command) (policy : Config.OverlapPolicy) : Except NoCommand Loop :=
  if command.words.isEmpty then .error {} else .ok { command, launcher := { policy } }

/-- One more turn is due. -/
def push (l : Loop) (t : Turn) : Loop := { l with turns := l.turns ++ [t] }

/-- The build that was started begins in a turn of its own. -/
def pushBegin (l : Loop) : Option Nat → Loop
  | some n => l.push (.begin n)
  | none => l

/-- Requests a build. The answer is the build that was started, if one was. -/
def request (l : Loop) (reason : String) : Loop × List Notice × Option Nat :=
  let (launcher, begun) := l.launcher.request reason
  let notices :=
    if begun.isNone && l.launcher.pending.isNone then [Notice.deferred] else []
  (({ l with launcher } : Loop).pushBegin begun, notices, begun)

/-- Lays down what comes of the next command for which nothing is laid down. -/
def failNext (l : Loop) (fault : SpawnFault) : Loop :=
  { l with processes := { l.processes with faults := l.processes.faults ++ [fault] } }

/-- The process at a place in the order is over, if it was running. -/
def finish (l : Loop) (k : Nat) (code : Int) : Loop × Bool :=
  match l.processes.finish k with
  | (processes, some n) => (({ l with processes } : Loop).push (.exited n code), true)
  | (_, none) => (l, false)

/-- Cancels the build `n`, if it has not ended. One that has not begun never does. -/
def cancel (l : Loop) (n : Nat) : Loop × Bool :=
  if l.turns.contains (.begin n) then
    (({ l with turns := l.turns.erase (.begin n) } : Loop).push (.settle n .cancelled), true)
  else match l.processes.placeOf? n with
    | some k =>
      (({ l with processes := (l.processes.finish k).1 } : Loop).push (.settle n .cancelled), true)
    | none => (l, false)

/-- Waits until no build is in flight. Who has waited before is forgotten. -/
def waitIdle (l : Loop) : Loop := ({ l with wait := some (.on []) } : Loop).push .look

/-- A build begins. -/
def begin (l : Loop) (n : Nat) : Loop × List Notice :=
  match l.processes.spawn l.command n with
  | (processes, .ok pid) =>
    ({ l with processes, launcher := l.launcher.spawned n pid }, [.begun])
  | (processes, .error (.refused message)) =>
    let e := Ending.refused message
    (({ l with processes, launcher := l.launcher.ended n e } : Loop).push (.settle n e),
      [.begun, .ended e])
  | (processes, .error (.crashed message)) =>
    (({ l with processes } : Loop).push (.settle n (.crashed message)), [.begun])

/-- Who waits for the build `n` among others waits for one less, and looks again after the last. -/
def awaken (l : Loop) (n : Nat) : Loop :=
  match l.wait with
  | some (.on builds) =>
    let left := builds.erase n
    let l := { l with wait := some (.on left) }
    if left.isEmpty && !builds.isEmpty then l.push .look else l
  | _ => l

/-- A build is settled. That a build has crashed is told only now. -/
def settle (l : Loop) (n : Nat) (e : Ending) : Loop × List Notice :=
  let (launcher, begun) := l.launcher.settled n e
  let notices := match e with
    | .crashed _ => [Notice.ended e]
    | _ => []
  ((({ l with launcher } : Loop).pushBegin begun).awaken n, notices)

/-- Who waits looks whether a build is in flight. -/
def look (l : Loop) : Loop :=
  match l.wait with
  | some (.on _) =>
    if l.launcher.inFlight.isEmpty then { l with wait := some .over }
    else { l with wait := some (.on l.launcher.inFlight) }
  | _ => l

/-- Takes a turn. -/
def take (l : Loop) : Turn → Loop × List Notice
  | .begin n => l.begin n
  | .exited n code =>
    let e := Ending.exited code
    (({ l with launcher := l.launcher.ended n e } : Loop).push (.settle n e), [.ended e])
  | .settle n e => l.settle n e
  | .look => (l.look, [])

end Loop

/-- The work of a turn with all that it brings, the pending build apart. -/
def Turn.work : Turn → Nat
  | begin _ | exited _ _ => 3
  | settle _ _ => 2
  | look => 1

/-- The work of turns together. -/
def Turn.workOf : List Turn → Nat
  | [] => 0
  | t :: ts => t.work + workOf ts

theorem Turn.workOf_append (ts us : List Turn) : workOf (ts ++ us) = workOf ts + workOf us := by
  induction ts with
  | nil => exact (Nat.zero_add _).symm
  | cons t ts ih => rw [List.cons_append, workOf, workOf, ih, Nat.add_assoc]

namespace Loop

/-- The work that is due. -/
def work (l : Loop) : Nat :=
  Turn.workOf l.turns + if l.launcher.pending.isSome then 3 else 0

/-- Changing the processes and the wait, or what is known of builds, brings no work. -/
theorem work_congr {l m : Loop} (ht : m.turns = l.turns)
    (hp : m.launcher.pending = l.launcher.pending) : m.work = l.work := by
  rw [work, work, ht, hp]

@[simp] theorem work_push (l : Loop) (t : Turn) : (l.push t).work = l.work + t.work := by
  have h : Turn.workOf (l.push t).turns = Turn.workOf l.turns + t.work :=
    Turn.workOf_append l.turns [t]
  have hp : (l.push t).launcher = l.launcher := rfl
  rw [work, work, h, hp]
  omega

theorem work_awaken (l : Loop) (n : Nat) : (l.awaken n).work ≤ l.work + 1 := by
  unfold awaken
  split
  · dsimp only
    split
    · rw [work_push, work_congr (l := l) rfl rfl]
      exact Nat.le_refl _
    · rw [work_congr (l := l) rfl rfl]
      exact Nat.le_succ _
  · exact Nat.le_succ _

theorem pending_ended (l : Launcher) (n : Nat) (e : Ending) :
    (l.ended n e).pending = l.pending := by
  cases e <;> rfl

theorem work_begin (l : Loop) (n : Nat) : (l.begin n).1.work ≤ l.work + 2 := by
  unfold begin
  split
  · exact Nat.le_trans (Nat.le_of_eq (work_congr rfl rfl)) (Nat.le_add_right ..)
  · next processes message _ =>
    rw [work_push, work_congr (l := l) rfl (pending_ended l.launcher n (.refused message))]
    exact Nat.le_refl _
  · rw [work_push, work_congr (l := l) rfl rfl]
    exact Nat.le_refl _

theorem work_look (l : Loop) : l.look.work = l.work := by
  unfold look
  split
  · split <;> rfl
  · rfl

/-- The build that is started when another is settled takes the place of the pending one. -/
theorem work_settled (l : Loop) (n : Nat) (e : Ending) :
    (({ l with launcher := (l.launcher.settled n e).1 } : Loop).pushBegin
      (l.launcher.settled n e).2).work ≤ l.work := by
  unfold Launcher.settled
  dsimp only
  split
  · exact Nat.le_of_eq (work_congr rfl rfl)
  · next h =>
    have hp : l.launcher.pending = some _ := h
    split
    · simp only [pushBegin, work_push]
      simp [work, Launcher.start, Turn.work, hp]
    · exact Nat.le_of_eq (work_congr rfl rfl)
  · exact Nat.le_of_eq (work_congr rfl rfl)

theorem work_settle (l : Loop) (n : Nat) (e : Ending) : (l.settle n e).1.work ≤ l.work + 1 :=
  Nat.le_trans (work_awaken ..) (Nat.add_le_add_right (work_settled l n e) 1)

/-- A turn brings less work than it is. -/
theorem work_take (l : Loop) (t : Turn) : (l.take t).1.work < l.work + t.work := by
  cases t with
  | begin n => exact Nat.lt_succ_of_le (work_begin l n)
  | exited n code =>
    have h : ({ l with launcher := l.launcher.ended n (.exited code) } : Loop).work = l.work :=
      work_congr rfl (pending_ended ..)
    simp [take, h, Turn.work]
  | settle n e => exact Nat.lt_succ_of_le (work_settle l n e)
  | look => simp [take, work_look, Turn.work]

/-- Takes all turns until none is due. -/
def run (l : Loop) : Loop × List Notice :=
  match _h : l.turns with
  | [] => (l, [])
  | t :: turns =>
    let r := ({ l with turns } : Loop).take t
    let s := r.1.run
    (s.1, r.2 ++ s.2)
termination_by l.work
decreasing_by
  have := work_take { l with turns } t
  simp only [work, _h, Turn.workOf] at this ⊢
  omega

/-- Has whoever waits seen that no build is in flight? Nobody has before someone waits. -/
def idle? (l : Loop) : Option Bool := l.wait.map (· == .over)

end Loop

end ScriptScrub.Build
