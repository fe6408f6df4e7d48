import ScriptScrub.Proofs.Build.Waiting

/-!
# One build at a time

A launcher that coalesces has at most one build in flight, and remembers at most one reason for
another one, always the last that was given (`Launcher.Coalesces`). Each of its moves keeps that:
a request (`Coalesces.request`), settling a build (`Coalesces.settled`), and all that only adds to
what is known of a build (`Coalesces.of_resembles`). So in every history no request is lost and no
builds overlap (`coalesced_history`).
-/

namespace ScriptScrub.Build

namespace Launcher

/-- The latest build was started for the request, or for a later one of the same reason. -/
def Covers (l : Launcher) (r : Request) : Prop :=
  ∃ b, l.builds.getLast? = some b ∧ b.2 = r.reason ∧ r.earlier < b.1

/-- After the requests `rs`, at most one build is in flight, at most one reason is remembered, and
only while a build is in flight. The last request is the one whose reason is remembered, or the
latest build covers it. -/
structure Coalesces (rs : List Request) (l : Launcher) : Prop where
  policy : l.policy = .coalesce
  numbered : l.builds.map (·.1) = List.range' 1 l.builds.length
  single : l.inFlight.length ≤ 1
  waits : l.pending ≠ none → l.inFlight ≠ []
  bounded : l.builds.length + l.pending.toList.length ≤ rs.length
  latest : ∀ r ∈ rs.getLast?,
    l.pending = some r.reason ∧ r.earlier ≤ l.builds.length ∨ l.pending = none ∧ l.Covers r

variable {rs : List Request} {l l' : Launcher}

/-- The number of builds is that of the invocations. -/
theorem length_builds (l : Launcher) : l.builds.length = l.invocations.length :=
  List.length_map _

/-- A launcher without builds coalesces what has not been requested yet. -/
theorem coalesces_new : Coalesces [] { policy := .coalesce } :=
  ⟨rfl, rfl, Nat.zero_le _, fun h => absurd rfl h, Nat.zero_le _, nofun⟩

/-- What is known of the builds does not matter. -/
theorem Coalesces.of_resembles (h : Coalesces rs l) (hl : l.Resembles l') : Coalesces rs l' := by
  obtain ⟨hpolicy, hinFlight, hpending, hbuilds⟩ := hl
  obtain ⟨policy, numbered, single, waits, bounded, latest⟩ := h
  constructor
  · rw [hpolicy, policy]
  · rw [hbuilds, numbered]
  · rwa [hinFlight]
  · rwa [hinFlight, hpending]
  · rwa [hbuilds, hpending]
  · rw [hbuilds, hpending]
    exact fun r hr => (latest r hr).imp_right fun ⟨hnone, b, hb⟩ => ⟨hnone, b, hbuilds ▸ hb⟩

/-- A build that is started is numbered like those before it. -/
theorem numbered_start (hnumbered : l.builds.map (·.1) = List.range' 1 l.builds.length)
    (reason : String) :
    (l.start reason).builds.map (·.1) = List.range' 1 (l.start reason).builds.length := by
  rw [builds_start, List.map_append, hnumbered, List.length_append, List.length_singleton,
    List.range'_concat, length_builds, List.map_singleton, next, Nat.add_comm, Nat.one_mul]

/-- A build that is started covers the request that it is started for. -/
theorem covers_start {r : Request} {reason : String} (hreason : reason = r.reason)
    (hearlier : r.earlier ≤ l.builds.length) : (l.start reason).Covers r := by
  refine ⟨(l.next, reason), ?_, hreason, ?_⟩
  · rw [builds_start, List.getLast?_concat]
  · rw [length_builds] at hearlier
    exact Nat.lt_succ_of_le hearlier

/-- **A request** starts a build where none is in flight, and is remembered otherwise. -/
theorem Coalesces.request (h : Coalesces rs l) (reason : String) :
    Coalesces (rs ++ [⟨reason, l.invocations.length⟩]) (l.request reason).1 := by
  have hcount : l.builds.length ≤ rs.length := Nat.le_trans (Nat.le_add_right ..) h.bounded
  unfold Launcher.request
  split
  · next hdefers =>
    rw [defers, Bool.and_eq_true, Bool.not_eq_true', List.isEmpty_eq_false_iff] at hdefers
    refine ⟨h.policy, h.numbered, h.single, fun _ => hdefers.2, ?_, fun r hr => ?_⟩
    · rw [List.length_append]
      exact Nat.add_le_add_right hcount 1
    · obtain rfl : _ = r := by simpa using hr
      exact .inl ⟨rfl, Nat.le_of_eq l.length_builds.symm⟩
  · next hdefers =>
    have hidle : l.inFlight = [] := by
      simpa [defers, h.policy] using hdefers
    have hpending : l.pending = none := by
      by_contra hne
      exact h.waits hne hidle
    refine ⟨h.policy, numbered_start h.numbered reason, ?_, ?_, ?_, fun r hr => ?_⟩
    · rw [start, hidle]
      exact Nat.le_refl _
    · exact fun hne => absurd hpending hne
    · rw [builds_start, start, hpending, List.length_append, List.length_append]
      exact Nat.add_le_add_right hcount 1
    · obtain rfl : _ = r := by simpa using hr
      exact .inr ⟨hpending, covers_start rfl (Nat.le_of_eq l.length_builds.symm)⟩

/-- **Settling a build** that was not cancelled starts the one that is remembered. -/
theorem Coalesces.settled (h : Coalesces rs l) (n : Nat) {e : Ending} (he : e ≠ .cancelled) :
    Coalesces rs (l.settled n e).1 := by
  have hsingle : (l.inFlight.erase n).length ≤ 1 := Nat.le_trans List.length_erase_le h.single
  unfold Launcher.settled
  dsimp only
  split
  · exact absurd rfl he
  · next reason _ hpending =>
    have hpending : l.pending = some reason := hpending
    have hbounded : l.builds.length + 1 ≤ rs.length := by
      simpa [hpending] using h.bounded
    split
    · next hempty =>
      rw [List.isEmpty_iff] at hempty
      refine ⟨h.policy, numbered_start h.numbered reason, ?_, fun hne => absurd rfl hne, ?_, ?_⟩
      · rw [start, hempty]
        exact Nat.le_refl _
      · rw [builds_start, List.length_append]
        exact hbounded
      · intro r hr
        rcases h.latest r hr with ⟨hreason, hearlier⟩ | ⟨hnone, -⟩
        · rw [hpending, Option.some.injEq] at hreason
          exact .inr ⟨rfl, covers_start hreason hearlier⟩
        · rw [hpending] at hnone
          cases hnone
    · next hempty =>
      exact ⟨h.policy, h.numbered, hsingle, fun _ => by simpa using hempty, h.bounded, h.latest⟩
  · next hpending =>
    have hpending : l.pending = none := hpending
    exact ⟨h.policy, h.numbered, hsingle, fun hne => absurd hpending hne, h.bounded, h.latest⟩

end Launcher

section
variable {l₀ l : Loop} {rs : List Request}

/-- **In every history** of a launcher that coalesces, it keeps to one build at a time. -/
theorem History.coalesces (h : History l₀ rs l) (hstaged : l₀.Staged)
    (h₀ : l₀.launcher.Coalesces []) : l.launcher.Coalesces rs := by
  induction h with
  | start => exact h₀
  | @request rs l _ reason ih =>
      rw [Loop.request, Loop.launcher_pushBegin]
      exact ih.request reason
  | step h s ih =>
      rcases s.launcher with hresembles | ⟨n, e, hsettle, heq⟩
      · exact ih.of_resembles hresembles
      · have hnot : e ≠ .cancelled := by
          rintro rfl
          exact (h.staged hstaged).uncancelled n hsettle
        rw [heq]
        exact ih.settled n hnot

/-- A request that the latest build covers is covered by the last invocation. -/
theorem Launcher.Covers.exists_invocation {l : Launcher} {r : Request} (h : l.Covers r) :
    ∃ i, l.invocations.getLast? = some i ∧ i.reason = r.reason ∧ r.earlier < i.sequence := by
  obtain ⟨b, hb, hreason, hlater⟩ := h
  rw [builds, List.getLast?_map, Option.map_eq_some_iff] at hb
  obtain ⟨i, hi, rfl⟩ := hb
  exact ⟨i, hi, hreason, hlater⟩

/-- **No request is lost, and no builds overlap**, in any history of a launcher that coalesces. At
most one build is in flight, with one turn that is due or one running process; a reason is
remembered only meanwhile. When none is in flight, the last invocation was started after the last
request came and carries its reason. There are no more invocations than requests, and they are
numbered from one in their order. Whoever waits is told at a time when nothing is in flight and
nothing is remembered, and until then a look is due or builds are waited for that are in flight. -/
theorem coalesced_history {command : Command} (hmake : Loop.make command .coalesce = .ok l₀)
    (h : History l₀ rs l) :
    (l.launcher.inFlight.length ≤ 1 ∧ l.active.Perm l.launcher.inFlight) ∧
    (l.launcher.pending ≠ none → l.launcher.inFlight ≠ []) ∧
    (l.launcher.inFlight = [] → ∀ r ∈ rs.getLast?, ∃ i,
      l.launcher.invocations.getLast? = some i ∧ i.reason = r.reason ∧ r.earlier < i.sequence) ∧
    l.launcher.invocations.length ≤ rs.length ∧
    l.launcher.invocations.map (·.sequence) = List.range' 1 l.launcher.invocations.length ∧
    (∀ l', l.Step l' → l.wait ≠ some .over → l'.wait = some .over →
      l'.launcher.inFlight = [] ∧ l'.launcher.pending = none) ∧
    ∀ builds, l.wait = some (.on builds) →
      .look ∈ l.turns ∨ builds ≠ [] ∧ builds.Subperm l.launcher.inFlight := by
  have hstaged := Loop.staged_make hmake
  have hnew : l₀.launcher.Coalesces [] := by
    unfold Loop.make at hmake
    split at hmake
    · cases hmake
    · cases hmake
      exact Launcher.coalesces_new
  have hidle : ∀ {l' : Loop}, History l₀ rs l' → l'.launcher.inFlight = [] →
      l'.launcher.pending = none := by
    intro l' h' hempty
    by_contra hpending
    exact (h'.coalesces hstaged hnew).waits hpending hempty
  have hc := h.coalesces hstaged hnew
  refine ⟨⟨hc.single, (h.staged hstaged).active⟩, hc.waits, ?_, ?_, ?_, ?_,
    h.attended (Loop.attended_make hmake)⟩
  · intro hempty r hr
    rcases hc.latest r hr with ⟨hpending, -⟩ | ⟨-, hcovers⟩
    · rw [hidle h hempty] at hpending
      cases hpending
    · exact hcovers.exists_invocation
  · rw [← Launcher.length_builds]
    exact Nat.le_trans (Nat.le_add_right ..) hc.bounded
  · rw [← Launcher.length_builds, ← hc.numbered, Launcher.builds, List.map_map]
    rfl
  · intro l' s hbefore hafter
    have hempty := s.idle_of_over hbefore hafter
    exact ⟨hempty, hidle (h.step s) hempty⟩

/-- The second request comes while a build runs, and the third one when this build has ended and is
not settled yet: one more build is started for both of them. -/
theorem coalesced_history_beforeSettling :
    ∃ l₀ l, Loop.make ⟨["make"], none⟩ .coalesce = .ok l₀ ∧
      History l₀ [⟨"a", 0⟩, ⟨"b", 1⟩, ⟨"c", 1⟩] l ∧ l.launcher.inFlight = [] ∧
      l.launcher.invocations.length = 2 ∧
      ∃ i, l.launcher.invocations.getLast? = some i ∧ i.reason = "c" ∧ 1 < i.sequence := by
  let make : Command := ⟨["make"], none⟩
  let l₀ : Loop := { command := make, launcher := { policy := .coalesce } }
  have first : History l₀ [⟨"a", 0⟩, ⟨"b", 1⟩]
      { l₀ with
        launcher := ⟨.coalesce, [⟨1, "a", some 1000, none, false⟩], [1], some "b"⟩
        processes := ⟨[], [make], [⟨1, false⟩]⟩
        turns := [.exited 1 0] } :=
    (((History.start.request "a").step (.take _ (t := .begin 1) (.head _))).request "b").step
      (.finish _ 0 0)
  have second : History l₀ [⟨"a", 0⟩, ⟨"b", 1⟩, ⟨"c", 1⟩]
      { l₀ with
        launcher := ⟨.coalesce, [⟨1, "a", some 1000, some 0, true⟩, ⟨2, "c", none, none, false⟩],
          [2], none⟩
        processes := ⟨[], [make], [⟨1, false⟩]⟩
        turns := [.begin 2] } :=
    ((first.step (.take _ (t := .exited 1 0) (.head _))).request "c").step
      (.take _ (t := .settle 1 (.exited 0)) (.head _))
  have last : History l₀ [⟨"a", 0⟩, ⟨"b", 1⟩, ⟨"c", 1⟩]
      { l₀ with
        launcher := ⟨.coalesce, [⟨1, "a", some 1000, some 0, true⟩, ⟨2, "c", none, none, true⟩],
          [], none⟩
        processes := ⟨[], [make, make], [⟨1, false⟩]⟩ } :=
    ((second.step (.failNext _ (.refused "denied"))).step (.take _ (t := .begin 2) (.head _))).step
      (.take _ (t := .settle 2 (.refused "denied")) (.head _))
  have hmake : Loop.make make .coalesce = .ok l₀ := rfl
  exact ⟨l₀, _, hmake, last, rfl, rfl, (coalesced_history hmake last).2.2.1 rfl _ rfl⟩

end

end ScriptScrub.Build
