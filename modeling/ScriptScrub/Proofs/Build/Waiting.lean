import Mathlib.Data.List.Perm.Subperm
import ScriptScrub.Proofs.Build.Stages

/-!
# Waiting for builds

Who waits until no build is in flight is told so only when none is (`Step.idle_of_over`), and is not
forgotten before: a look is due, or builds are waited for that are in flight
(`History.attended`).
-/

namespace ScriptScrub.Build.Loop

/-- Whoever waits will look again: a look is due, or some of the builds in flight are waited for. -/
def Attended (l : Loop) : Prop :=
  ∀ builds, l.wait = some (.on builds) →
    .look ∈ l.turns ∨ builds ≠ [] ∧ builds.Subperm l.launcher.inFlight

variable {l l' : Loop}

/-- Nobody waits at a loop that has just been made. -/
theorem attended_make {command : Command} {policy : Config.OverlapPolicy}
    (h : Loop.make command policy = .ok l) : l.Attended := by
  unfold make at h
  split at h
  · cases h
  · cases h
    nofun

/-- A look that is due stays so when another turn is taken or becomes due. -/
theorem Attended.of_turns (h : l.Attended) (hwait : l'.wait = l.wait)
    (hturns : .look ∈ l.turns → .look ∈ l'.turns)
    (hinFlight : l.launcher.inFlight.Subperm l'.launcher.inFlight) : l'.Attended := by
  intro builds hbuilds
  rw [hwait] at hbuilds
  exact (h builds hbuilds).imp hturns fun ⟨hne, hsub⟩ => ⟨hne, hsub.trans hinFlight⟩

/-- A look that is due stays so when another one becomes due. -/
theorem look_mem_push {t : Turn} (h : .look ∈ l.turns) : .look ∈ (l.push t).turns :=
  List.mem_append_left _ h

/-- A look that is due stays so when a build begins. -/
theorem look_mem_pushBegin {begun : Option Nat} (h : .look ∈ l.turns) :
    .look ∈ (l.pushBegin begun).turns := by
  cases begun with
  | none => exact h
  | some n => exact look_mem_push h

/-- A build that begins does not concern the one who waits. -/
theorem wait_pushBegin (l : Loop) (begun : Option Nat) : (l.pushBegin begun).wait = l.wait := by
  cases begun <;> rfl

/-- Nor does the turn in which it begins. -/
theorem wait_begin (l : Loop) (n : Nat) : (l.begin n).1.wait = l.wait := by
  unfold begin
  split <;> rfl

/-- In that turn, a look that is due stays so. -/
theorem look_mem_begin {n : Nat} (h : .look ∈ l.turns) : .look ∈ (l.begin n).1.turns := by
  unfold begin
  split
  · exact h
  · exact look_mem_push h
  · exact look_mem_push h

/-- After a request, whoever waits still waits for the same. -/
theorem Attended.request (h : l.Attended) (reason : String) : (l.request reason).1.Attended := by
  refine h.of_turns (wait_pushBegin _ _) (fun hlook => look_mem_pushBegin hlook) ?_
  rw [Loop.request, launcher_pushBegin, Launcher.inFlight_request]
  exact (List.sublist_append_left _ _).subperm

/-- **Settling a build awakens** whoever waited for it last. -/
theorem Attended.settle (h : l.Attended) (n : Nat) (e : Ending) : (l.settle n e).1.Attended := by
  have hsame : ∀ begun, (({ l with launcher := (l.launcher.settled n e).1 } : Loop).pushBegin
      begun).wait = l.wait := fun begun => wait_pushBegin _ begun
  intro builds hbuilds
  rw [settle_fst] at hbuilds ⊢
  rw [launcher_awaken, launcher_pushBegin, Launcher.inFlight_settled]
  rcases awaken_cases (pushBegin _ (l.launcher.settled n e).2) n with
    ⟨hno, heq⟩ | ⟨waited, hwait, ⟨-, heq⟩ | ⟨hleft, heq⟩⟩ <;> rw [heq] at hbuilds ⊢
  · exact absurd hbuilds (hno builds)
  · exact .inl (List.mem_append_right _ (List.mem_singleton_self _))
  · cases hbuilds
    rcases h waited ((hsame _).symm.trans hwait) with hlook | ⟨hne, hsub⟩
    · exact .inl (look_mem_pushBegin hlook)
    · exact .inr ⟨hleft hne, (hsub.erase n).trans (List.sublist_append_left _ _).subperm⟩

/-- **No step forgets whoever waits.** -/
theorem Attended.step (h : l.Attended) (s : l.Step l') : l'.Attended := by
  cases s with
  | failNext fault => exact h
  | finish k code =>
      rcases l.finish_cases k code with heq | ⟨n, processes, -, heq⟩ <;> rw [heq]
      · exact h
      · exact h.of_turns rfl look_mem_push (List.Subperm.refl _)
  | breakDown k message =>
      rcases l.breakDown_cases k message with heq | ⟨n, processes, -, heq⟩ <;> rw [heq]
      · exact h
      · exact h.of_turns rfl look_mem_push (List.Subperm.refl _)
  | waitIdle => exact fun _ _ => .inl (List.mem_append_right _ (List.mem_singleton_self _))
  | @take t ht =>
      have hrest : t ≠ .look → (l.without t).Attended := fun hne =>
        h.of_turns rfl (fun hlook => (List.mem_erase_of_ne hne.symm).2 hlook) (List.Subperm.refl _)
      cases t with
      | begin n =>
          refine (hrest (by simp)).of_turns (wait_begin _ n) look_mem_begin ?_
          rw [Loop.take, ((l.without _).resembles_begin n).inFlight]
      | exited n code =>
          refine (hrest (by simp)).of_turns rfl look_mem_push ?_
          exact (l.launcher.resembles_ended n (.exited code)).inFlight ▸ List.Subperm.refl _
      | settle n e => exact (hrest (by simp)).settle n e
      | look =>
          intro builds hbuilds
          rw [Loop.take] at hbuilds ⊢
          rcases (l.without .look).look_cases with ⟨hno, heq⟩ | ⟨-, heq⟩ | ⟨hne, heq⟩ <;>
            rw [heq] at hbuilds ⊢
          · exact absurd hbuilds (hno builds)
          · cases hbuilds
          · cases hbuilds
            exact .inr ⟨hne, List.Subperm.refl _⟩

/-- **Nobody is told too early** that no build is in flight. -/
theorem Step.idle_of_over (s : l.Step l') (hbefore : l.wait ≠ some .over)
    (hafter : l'.wait = some .over) : l'.launcher.inFlight = [] := by
  cases s with
  | failNext fault => exact absurd hafter hbefore
  | finish k code =>
      rcases l.finish_cases k code with heq | ⟨n, processes, -, heq⟩ <;> rw [heq] at hafter <;>
        exact absurd hafter hbefore
  | breakDown k message =>
      rcases l.breakDown_cases k message with heq | ⟨n, processes, -, heq⟩ <;>
        rw [heq] at hafter <;> exact absurd hafter hbefore
  | waitIdle => cases hafter
  | @take t ht =>
      cases t with
      | begin n =>
          rw [Loop.take, wait_begin] at hafter
          exact absurd hafter hbefore
      | exited n code => exact absurd hafter hbefore
      | settle n e =>
          rw [Loop.take, settle_fst] at hafter
          rcases awaken_cases (pushBegin _ _) n with
            ⟨-, heq⟩ | ⟨_, -, ⟨-, heq⟩ | ⟨-, heq⟩⟩ <;> rw [heq] at hafter
          · rw [wait_pushBegin] at hafter
            exact absurd hafter hbefore
          · cases hafter
          · cases hafter
      | look =>
          rw [Loop.take] at hafter ⊢
          rcases (l.without .look).look_cases with ⟨-, heq⟩ | ⟨hempty, heq⟩ | ⟨-, heq⟩ <;>
            rw [heq] at hafter ⊢
          · exact absurd hafter hbefore
          · exact hempty
          · cases hafter

end ScriptScrub.Build.Loop

namespace ScriptScrub.Build

/-- **In every history whoever waits is attended to.** -/
theorem History.attended {l₀ l : Loop} {rs : List Request} (h : History l₀ rs l)
    (h₀ : l₀.Attended) : l.Attended := by
  induction h with
  | start => exact h₀
  | request _ reason ih => exact ih.request reason
  | step _ s ih => exact ih.step s

end ScriptScrub.Build
