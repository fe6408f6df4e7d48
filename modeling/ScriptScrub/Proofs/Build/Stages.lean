import Mathlib.Data.List.Basic
import ScriptScrub.Build.Loop

/-!
# The course of builds

What can happen to a loop of builds: builds are requested, and meanwhile processes end or are given
up, failures are laid down, somebody waits, and turns that are due are taken, each at any time and
the turns in any order (`Step`, `History`). Whatever the policy is, the builds in flight are exactly
those with a turn that is due or a running process, each of them once (`History.staged`): no build
in flight is forgotten, and none is at two places. Taking all turns is a part of a history
(`History.run`).
-/

namespace ScriptScrub.Build

/-- The build that a turn is about; looking is about none. -/
def Turn.build? : Turn → Option Nat
  | begin n | exited n _ | settle n _ => some n
  | look => none

/-- The builds whose processes run. -/
def Processes.running (p : Processes) : List Nat := (p.started.filter (·.running)).map (·.build)

namespace Processes

/-- A process that is over has run until now, and is the only one that runs no longer. -/
theorem running_finish {p p' : Processes} {k n : Nat} (h : p.finish k = (p', some n)) :
    p.running.Perm (n :: p'.running) := by
  unfold finish at h
  split at h
  · next hk =>
    cases h
    obtain ⟨hlt, hget⟩ := List.getElem?_eq_some_iff.1 hk
    have hsplit : p.started = p.started.take k ++ ⟨n, true⟩ :: p.started.drop (k + 1) := by
      rw [← hget, List.getElem_cons_drop, List.take_append_drop]
    have hset : p.started.set k ⟨n, false⟩ =
        p.started.take k ++ ⟨n, false⟩ :: p.started.drop (k + 1) :=
      List.set_eq_take_append_cons_drop.trans (if_pos hlt)
    rw [running, running, hset]
    nth_rewrite 1 [hsplit]
    simp only [List.filter_append, List.filter_cons_of_pos, List.filter_cons, Bool.false_eq_true,
      if_false, List.map_append, List.map_cons]
    exact List.perm_middle
  · cases h

/-- The process of a command that is started runs for its build. -/
theorem running_spawn_ok {p p' : Processes} {command : Command} {n pid : Nat}
    (h : p.spawn command n = (p', .ok pid)) : p'.running = p.running ++ [n] := by
  unfold spawn at h
  dsimp only at h
  split at h
  · cases h
  · cases h
    simp [running]

/-- No process runs in addition if a command fails to start. -/
theorem running_spawn_error {p p' : Processes} {command : Command} {n : Nat} {fault : SpawnFault}
    (h : p.spawn command n = (p', .error fault)) : p'.running = p.running := by
  unfold spawn at h
  dsimp only at h
  split at h
  · cases h
    rfl
  · cases h

end Processes

/-! ## What a launcher does -/

namespace Launcher

/-- The builds that were started, each with its sequence number and its reason. -/
def builds (l : Launcher) : List (Nat × String) := l.invocations.map fun i => (i.sequence, i.reason)

/-- The launchers differ at most in what is known of their builds. -/
structure Resembles (l l' : Launcher) : Prop where
  policy : l'.policy = l.policy
  inFlight : l'.inFlight = l.inFlight
  pending : l'.pending = l.pending
  builds : l'.builds = l.builds

/-- A launcher resembles itself. -/
theorem Resembles.refl (l : Launcher) : l.Resembles l := ⟨rfl, rfl, rfl, rfl⟩

/-- Changing what is known of a build leaves its number and its reason. -/
theorem resembles_update (l : Launcher) (n : Nat) {f : Invocation → Invocation}
    (hf : ∀ i, (f i).sequence = i.sequence ∧ (f i).reason = i.reason) :
    l.Resembles (l.update n f) := by
  refine ⟨rfl, rfl, rfl, ?_⟩
  rw [builds, builds, update, List.map_map]
  refine List.map_congr_left fun i _ => ?_
  rw [Function.comp_apply]
  split
  · rw [(hf i).1, (hf i).2]
  · rfl

/-- A build that has a process is the build that it was. -/
theorem resembles_spawned (l : Launcher) (n pid : Nat) : l.Resembles (l.spawned n pid) :=
  l.resembles_update n fun _ => ⟨rfl, rfl⟩

/-- A build that has ended is the build that it was, and is still in flight. -/
theorem resembles_ended (l : Launcher) (n : Nat) (e : Ending) : l.Resembles (l.ended n e) := by
  cases e with
  | exited code => exact l.resembles_update n fun _ => ⟨rfl, rfl⟩
  | refused message => exact l.resembles_update n fun _ => ⟨rfl, rfl⟩
  | crashed message => exact .refl l
  | cancelled => exact .refl l

/-- A build that is started is one more build, and in flight. -/
theorem builds_start (l : Launcher) (reason : String) :
    (l.start reason).builds = l.builds ++ [(l.next, reason)] := by
  rw [builds, builds, start, List.map_append, List.map_singleton]

/-- After a request, the build that it has started is in flight too. -/
theorem inFlight_request (l : Launcher) (reason : String) :
    (l.request reason).1.inFlight = l.inFlight ++ (l.request reason).2.toList := by
  unfold request
  split
  · exact (List.append_nil _).symm
  · rfl

/-- After a build was settled, it is no longer in flight, and the one that this has started is. -/
theorem inFlight_settled (l : Launcher) (n : Nat) (e : Ending) :
    (l.settled n e).1.inFlight = l.inFlight.erase n ++ (l.settled n e).2.toList := by
  unfold settled
  dsimp only
  split
  · exact (List.append_nil _).symm
  · split
    · rfl
    · exact (List.append_nil _).symm
  · exact (List.append_nil _).symm

end Launcher

/-! ## Histories -/

namespace Loop

/-- The launcher fails at the build whose process stands at a place in the order, if it was running:
nobody waits for the process any more. -/
def breakDown (l : Loop) (k : Nat) (message : String) : Loop :=
  match l.processes.finish k with
  | (processes, some n) => ({ l with processes } : Loop).push (.settle n (.crashed message))
  | (_, none) => l

/-- Takes a turn out of those that are due. -/
def without (l : Loop) (t : Turn) : Loop := { l with turns := l.turns.erase t }

/-- What can happen to a loop by itself. No build is cancelled, and any turn that is due may be the
next one. -/
inductive Step : Loop → Loop → Prop
  | failNext (l : Loop) (fault : SpawnFault) : Step l (l.failNext fault)
  | finish (l : Loop) (k : Nat) (code : Int) : Step l (l.finish k code).1
  | breakDown (l : Loop) (k : Nat) (message : String) : Step l (l.breakDown k message)
  | waitIdle (l : Loop) : Step l l.waitIdle
  | take (l : Loop) {t : Turn} (h : t ∈ l.turns) : Step l ((l.without t).take t).1

end Loop

/-- A request, and the number of builds that had been started before it. -/
structure Request where
  reason : String
  earlier : Nat
deriving Repr, DecidableEq

/-- The loop `l₀` has become another one, and on the way these requests have come, each at any
time. -/
inductive History (l₀ : Loop) : List Request → Loop → Prop
  | start : History l₀ [] l₀
  | request {rs : List Request} {l : Loop} (h : History l₀ rs l) (reason : String) :
      History l₀ (rs ++ [⟨reason, l.launcher.invocations.length⟩]) (l.request reason).1
  | step {rs : List Request} {l l' : Loop} (h : History l₀ rs l) (s : l.Step l') :
      History l₀ rs l'

/-- A history goes on with one in which no request comes. -/
theorem History.trans {l₀ l l' : Loop} {rs : List Request} (h : History l₀ rs l)
    (h' : History l [] l') : History l₀ rs l' := by
  generalize hqs : ([] : List Request) = qs at h'
  induction h' with
  | start => exact h
  | request => exact absurd hqs (by simp)
  | step _ s ih => exact (ih hqs).step s

/-- Taking all turns is a part of a history. -/
theorem History.run {l₀ l : Loop} {rs : List Request} (h : History l₀ rs l) :
    History l₀ rs l.run.1 := by
  induction l using Loop.run.induct with
  | case1 l hnil =>
      rw [Loop.run]
      split
      · exact h
      · next heq =>
        rw [hnil] at heq
        cases heq
  | case2 l t turns hturns r ih =>
      have hmem : t ∈ l.turns := hturns ▸ List.mem_cons_self
      have hrest : l.without t = { l with turns } := by
        rw [Loop.without, hturns, List.erase_cons_head]
      have hstep : History l₀ rs ((l.without t).take t).1 := h.step (.take l hmem)
      rw [hrest] at hstep
      rw [Loop.run]
      split
      · next heq =>
        rw [hturns] at heq
        cases heq
      · next t' turns' heq =>
        rw [hturns] at heq
        cases heq
        exact ih hstep

/-! ## The stages of builds -/

namespace Loop

/-- The builds with a turn that is due, and those with a running process. -/
def active (l : Loop) : List Nat := l.turns.filterMap Turn.build? ++ l.processes.running

/-- Every build in flight has exactly one turn that is due or exactly one running process, no other
build has any, and no build was cancelled. -/
structure Staged (l : Loop) : Prop where
  active : l.active.Perm l.launcher.inFlight
  uncancelled : ∀ n, Turn.settle n .cancelled ∉ l.turns

/-- A turn that becomes due makes its build active. -/
theorem active_push (l : Loop) (t : Turn) :
    (l.push t).active.Perm (t.build?.toList ++ l.active) := by
  have hmap : (l.turns ++ [t]).filterMap Turn.build? =
      l.turns.filterMap Turn.build? ++ t.build?.toList := by
    rw [List.filterMap_append]
    cases t <;> rfl
  rw [active, active, push, hmap, ← List.append_assoc]
  exact List.perm_append_comm.append_right _

/-- The build that begins is active. -/
theorem active_pushBegin (l : Loop) (begun : Option Nat) :
    (l.pushBegin begun).active.Perm (begun.toList ++ l.active) := by
  cases begun with
  | none => exact .refl _
  | some n => exact l.active_push (.begin n)

/-- Without a turn, its build is active once less. -/
theorem active_without {l : Loop} {t : Turn} (h : t ∈ l.turns) :
    l.active.Perm (t.build?.toList ++ (l.without t).active) := by
  have hmap := (List.perm_cons_erase h).filterMap Turn.build?
  rw [active, active, ← List.append_assoc]
  refine List.Perm.append_right _ (hmap.trans ?_)
  rw [List.filterMap_cons]
  cases t <;> exact .refl _

/-- Nothing but a pushed turn is due in addition. -/
theorem mem_turns_push {l : Loop} {t u : Turn} (h : u ∈ (l.push t).turns) :
    u ∈ l.turns ∨ u = t := by
  simpa [push] using h

/-- Who waits for the last of some builds looks again, who waits for others goes on to wait for
them, and nobody else is awakened. -/
theorem awaken_cases (l : Loop) (n : Nat) :
    ((∀ builds, l.wait ≠ some (.on builds)) ∧ l.awaken n = l) ∨
    ∃ builds, l.wait = some (.on builds) ∧
      ((builds ≠ [] ∧ l.awaken n = ({ l with wait := some (.on []) } : Loop).push .look) ∨
        ((builds ≠ [] → builds.erase n ≠ []) ∧
          l.awaken n = { l with wait := some (.on (builds.erase n)) })) := by
  unfold awaken
  split
  · next builds hwait =>
    refine .inr ⟨builds, hwait, ?_⟩
    dsimp only
    split
    · next hlast =>
      rw [Bool.and_eq_true, Bool.not_eq_true', List.isEmpty_iff, List.isEmpty_eq_false_iff] at hlast
      exact .inl ⟨hlast.2, by rw [hlast.1]⟩
    · next hlast => exact .inr ⟨fun hne hnil => hlast (by simp [hne, hnil]), rfl⟩
  · next hno => exact .inl ⟨hno, rfl⟩

/-- Who waits is awakened without a build being active in addition or settled. -/
theorem awaken_active (l : Loop) (n : Nat) : (l.awaken n).active.Perm l.active := by
  rcases l.awaken_cases n with ⟨-, h⟩ | ⟨_, -, ⟨-, h⟩ | ⟨-, h⟩⟩ <;> rw [h]
  · exact active_push _ .look
  · exact .refl _

/-- Who waits is awakened without any change to the launcher. -/
theorem launcher_awaken (l : Loop) (n : Nat) : (l.awaken n).launcher = l.launcher := by
  rcases l.awaken_cases n with ⟨-, h⟩ | ⟨_, -, ⟨-, h⟩ | ⟨-, h⟩⟩ <;> rw [h]
  rfl

/-- Awakening makes only a look due. -/
theorem mem_turns_awaken {l : Loop} {n : Nat} {t : Turn} (h : t ∈ (l.awaken n).turns) :
    t ∈ l.turns ∨ t = .look := by
  rcases l.awaken_cases n with ⟨-, heq⟩ | ⟨_, -, ⟨-, heq⟩ | ⟨-, heq⟩⟩ <;> rw [heq] at h
  · exact .inl h
  · exact mem_turns_push h
  · exact .inl h

/-- A build that begins stays active: it has a process, or it has ended and is to be settled. -/
theorem active_begin (l : Loop) (n : Nat) : (l.begin n).1.active.Perm (n :: l.active) := by
  have hmiddle : ∀ running : List Nat,
      (l.turns.filterMap Turn.build? ++ (running ++ [n])).Perm
        (n :: (l.turns.filterMap Turn.build? ++ running)) := fun running => by
    rw [← List.append_assoc]
    exact List.perm_append_singleton _ _
  unfold begin
  split
  · next hspawn =>
    rw [active, active, Processes.running_spawn_ok hspawn]
    exact hmiddle _
  · next hspawn =>
    refine (active_push _ _).trans ?_
    rw [active, active, Processes.running_spawn_error hspawn]
    exact .refl _
  · next hspawn =>
    refine (active_push _ _).trans ?_
    rw [active, active, Processes.running_spawn_error hspawn]
    exact .refl _

/-- A build that begins is the build that it was, and nothing else changes about the launcher. -/
theorem resembles_begin (l : Loop) (n : Nat) : l.launcher.Resembles (l.begin n).1.launcher := by
  unfold begin
  split
  · exact l.launcher.resembles_spawned n _
  · next message _ => exact l.launcher.resembles_ended n (.refused message)
  · exact .refl _

/-- What a build that begins makes due is no end by cancelling. -/
theorem mem_turns_begin {l : Loop} {n : Nat} {t : Turn} (h : t ∈ (l.begin n).1.turns) :
    t ∈ l.turns ∨ ∃ e, e ≠ .cancelled ∧ t = .settle n e := by
  unfold begin at h
  split at h
  · exact .inl h
  · next message _ => exact (mem_turns_push h).imp_right fun ht => ⟨.refused message, nofun, ht⟩
  · next message _ => exact (mem_turns_push h).imp_right fun ht => ⟨.crashed message, nofun, ht⟩

/-- The build that begins makes its beginning due. -/
theorem mem_turns_pushBegin {l : Loop} {begun : Option Nat} {t : Turn}
    (h : t ∈ (l.pushBegin begun).turns) : t ∈ l.turns ∨ ∃ n, t = .begin n := by
  cases begun with
  | none => exact .inl h
  | some n => exact (mem_turns_push h).imp_right fun ht => ⟨n, ht⟩

/-- A build that begins changes nothing about the launcher before its turn. -/
theorem launcher_pushBegin (l : Loop) (begun : Option Nat) :
    (l.pushBegin begun).launcher = l.launcher := by
  cases begun <;> rfl

/-- When a build is settled, another one may begin, and who waits is awakened. -/
theorem settle_fst (l : Loop) (n : Nat) (e : Ending) :
    (l.settle n e).1 = (({ l with launcher := (l.launcher.settled n e).1 } : Loop).pushBegin
      (l.launcher.settled n e).2).awaken n := rfl

/-- Who waits is told that no build is in flight if none is, and otherwise waits for those that
are. -/
theorem look_cases (l : Loop) :
    ((∀ builds, l.wait ≠ some (.on builds)) ∧ l.look = l) ∨
    (l.launcher.inFlight = [] ∧ l.look = { l with wait := some .over }) ∨
    (l.launcher.inFlight ≠ [] ∧ l.look = { l with wait := some (.on l.launcher.inFlight) }) := by
  unfold look
  split
  · split
    · next hempty => exact .inr (.inl ⟨List.isEmpty_iff.1 hempty, rfl⟩)
    · next hsome => exact .inr (.inr ⟨fun hempty => hsome (List.isEmpty_iff.2 hempty), rfl⟩)
  · next hno => exact .inl ⟨hno, rfl⟩

/-- Looking changes nothing but what is known to the one who waits. -/
theorem look_eq (l : Loop) : ∃ wait, l.look = { l with wait } := by
  rcases l.look_cases with ⟨-, h⟩ | ⟨-, h⟩ | ⟨-, h⟩
  · exact ⟨l.wait, h⟩
  · exact ⟨_, h⟩
  · exact ⟨_, h⟩

/-- A process that is over makes its build go on with a turn, if it was running. -/
theorem finish_cases (l : Loop) (k : Nat) (code : Int) :
    (l.finish k code).1 = l ∨ ∃ n processes, l.processes.finish k = (processes, some n) ∧
      (l.finish k code).1 = ({ l with processes } : Loop).push (.exited n code) := by
  unfold Loop.finish
  split
  · next processes n h => exact .inr ⟨n, processes, h, rfl⟩
  · exact .inl rfl

/-- A process that is given up makes its build go on with a turn, if it was running. -/
theorem breakDown_cases (l : Loop) (k : Nat) (message : String) :
    l.breakDown k message = l ∨ ∃ n processes, l.processes.finish k = (processes, some n) ∧
      l.breakDown k message =
        ({ l with processes } : Loop).push (.settle n (.crashed message)) := by
  unfold breakDown
  split
  · next processes n h => exact .inr ⟨n, processes, h, rfl⟩
  · exact .inl rfl

/-- While its process runs, a build is active for it. -/
theorem active_finish {l : Loop} {k n : Nat} {processes : Processes}
    (h : l.processes.finish k = (processes, some n)) :
    l.active.Perm (n :: ({ l with processes } : Loop).active) :=
  ((Processes.running_finish h).append_left _).trans List.perm_middle

variable {l l' : Loop}

/-- A loop that has just been made has no builds. -/
theorem staged_make {command : Command} {policy : Config.OverlapPolicy}
    (h : Loop.make command policy = .ok l) : l.Staged := by
  unfold make at h
  split at h
  · cases h
  · cases h
    exact ⟨.refl _, nofun⟩

/-- The build whose process is over goes on with a turn. -/
theorem Staged.push_of_finish (h : l.Staged) {k n : Nat} {processes : Processes}
    (hfinish : l.processes.finish k = (processes, some n)) {t : Turn} (hbuild : t.build? = some n)
    (hcancelled : ∀ m, t ≠ .settle m .cancelled) :
    (({ l with processes } : Loop).push t).Staged := by
  refine ⟨?_, fun m hm => ?_⟩
  · have hpush := active_push ({ l with processes } : Loop) t
    rw [hbuild] at hpush
    exact hpush.trans ((active_finish hfinish).symm.trans h.active)
  · rcases mem_turns_push hm with hm | hm
    · exact h.uncancelled m hm
    · exact hcancelled m hm.symm

/-- A request keeps every build at its place. -/
theorem Staged.request (h : l.Staged) (reason : String) : (l.request reason).1.Staged := by
  refine ⟨?_, fun n hn => ?_⟩
  · refine (active_pushBegin _ _).trans ?_
    rw [Loop.request, launcher_pushBegin, Launcher.inFlight_request]
    exact (h.active.append_left _).trans List.perm_append_comm
  · rcases mem_turns_pushBegin hn with hn | ⟨m, hn⟩
    · exact h.uncancelled n hn
    · cases hn

/-- **A turn moves its build from one place to the next.** -/
theorem Staged.take (h : l.Staged) {t : Turn} (ht : t ∈ l.turns) :
    ((l.without t).take t).1.Staged := by
  have hactive := (active_without ht).symm.trans h.active
  have hold : ∀ n, Turn.settle n .cancelled ∉ (l.without t).turns :=
    fun n hn => h.uncancelled n (List.mem_of_mem_erase hn)
  cases t with
  | begin n =>
      refine ⟨?_, fun m hm => ?_⟩
      · rw [Loop.take, ((l.without _).resembles_begin n).inFlight]
        exact (active_begin _ n).trans hactive
      · rcases mem_turns_begin hm with hm | ⟨e, he, hm⟩
        · exact hold m hm
        · cases hm
          exact he rfl
  | exited n code =>
      refine ⟨?_, fun m hm => ?_⟩
      · have hinFlight := (l.launcher.resembles_ended n (.exited code)).inFlight
        exact (active_push _ _).trans (hinFlight ▸ hactive)
      · rcases mem_turns_push hm with hm | hm
        · exact hold m hm
        · cases hm
  | settle n e =>
      refine ⟨?_, fun m hm => ?_⟩
      · refine (awaken_active _ n).trans ((active_pushBegin _ _).trans ?_)
        rw [Loop.take, settle_fst, launcher_awaken, launcher_pushBegin, Launcher.inFlight_settled]
        -- The build that is settled leaves both sides, and the one that is started comes to both.
        have hleft : (l.without (.settle n e)).active.Perm (l.launcher.inFlight.erase n) := by
          simpa [Turn.build?] using hactive.erase n
        exact (hleft.append_left _).trans List.perm_append_comm
      · rcases mem_turns_awaken hm with hm | hm
        · rcases mem_turns_pushBegin hm with hm | ⟨k, hm⟩
          · exact hold m hm
          · cases hm
        · cases hm
  | look =>
      obtain ⟨wait, hlook⟩ := (l.without .look).look_eq
      rw [Loop.take, hlook]
      exact ⟨hactive, hold⟩

/-- **Every step keeps each build at one place.** -/
theorem Staged.step (h : l.Staged) (s : l.Step l') : l'.Staged := by
  cases s with
  | failNext fault => exact ⟨h.active, h.uncancelled⟩
  | finish k code =>
      rcases l.finish_cases k code with heq | ⟨n, processes, hfinish, heq⟩ <;> rw [heq]
      · exact h
      · exact h.push_of_finish hfinish rfl nofun
  | breakDown k message =>
      rcases l.breakDown_cases k message with heq | ⟨n, processes, hfinish, heq⟩ <;> rw [heq]
      · exact h
      · exact h.push_of_finish hfinish rfl nofun
  | waitIdle =>
      refine ⟨(active_push _ .look).trans h.active, fun n hn => ?_⟩
      rcases mem_turns_push hn with hn | hn
      · exact h.uncancelled n hn
      · cases hn
  | take ht => exact h.take ht

/-- **A step changes the launcher** only in what it knows of its builds, or settles one of them. -/
theorem Step.launcher (s : l.Step l') : l.launcher.Resembles l'.launcher ∨
    ∃ n e, Turn.settle n e ∈ l.turns ∧ l'.launcher = (l.launcher.settled n e).1 := by
  cases s with
  | failNext fault => exact .inl (.refl _)
  | finish k code =>
      rcases l.finish_cases k code with heq | ⟨n, processes, -, heq⟩ <;> rw [heq] <;>
        exact .inl (.refl _)
  | breakDown k message =>
      rcases l.breakDown_cases k message with heq | ⟨n, processes, -, heq⟩ <;> rw [heq] <;>
        exact .inl (.refl _)
  | waitIdle => exact .inl (.refl _)
  | @take t ht =>
      cases t with
      | begin n => exact .inl ((l.without (.begin n)).resembles_begin n)
      | exited n code => exact .inl (l.launcher.resembles_ended n (.exited code))
      | settle n e =>
          refine .inr ⟨n, e, ht, ?_⟩
          rw [Loop.take, settle_fst, launcher_awaken, launcher_pushBegin]
          rfl
      | look =>
          obtain ⟨wait, hlook⟩ := (l.without .look).look_eq
          rw [Loop.take, hlook]
          exact .inl (.refl _)

end Loop

/-- **In every history each build in flight is at one place**: a turn is due that is about it, or
its process runs. -/
theorem History.staged {l₀ l : Loop} {rs : List Request} (h : History l₀ rs l) (h₀ : l₀.Staged) :
    l.Staged := by
  induction h with
  | start => exact h₀
  | request _ reason ih => exact ih.request reason
  | step _ s ih => exact ih.step s

end ScriptScrub.Build
