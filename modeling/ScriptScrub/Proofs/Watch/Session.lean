import ScriptScrub.Proofs.Build.Stages
import ScriptScrub.Watch.Watcher

/-!
# The course of a session

Which builds a session requests for the events that it is told, and when it is ended. What it does
with one event is said by `requested_before`, `requested_after` and `handle_stopped`; from that, by
induction over what happens, a session requests exactly the builds that are due (`Session.due`,
`requests_follow`), counts them (`buildsRequested_follow`), knows whether the first scan is over
(`initialBuildDone_follow`), and is stopped exactly if it was ended (`phase_follow`). A watcher
passes on these requests to its builds, and nothing else (`session_request_history`).
-/

namespace ScriptScrub.Build.Loop

/-- Requests builds one after the other, no turn being taken between them. -/
def requestAll (l : Loop) (reasons : List String) : Loop :=
  reasons.foldl (fun l reason => (l.request reason).1) l

/-- Requests in two parts. -/
theorem requestAll_append (l : Loop) (first second : List String) :
    l.requestAll (first ++ second) = (l.requestAll first).requestAll second :=
  List.foldl_append

/-- Where builds may overlap, every request is an invocation. -/
theorem reasons_requestAll {l : Loop} (h : l.launcher.policy = .parallel) (reasons : List String) :
    (l.requestAll reasons).launcher.invocations.map (·.reason) =
      l.launcher.invocations.map (·.reason) ++ reasons := by
  induction reasons generalizing l with
  | nil => exact (List.append_nil _).symm
  | cons reason reasons ih =>
      have hstart : (l.request reason).1.launcher = l.launcher.start reason := by
        rw [request, launcher_pushBegin, Launcher.request, Launcher.defers, h]
        rfl
      have hpolicy : (l.request reason).1.launcher.policy = .parallel := by rw [hstart]; exact h
      rw [requestAll, List.foldl_cons, ← requestAll, ih hpolicy, hstart, Launcher.start,
        List.map_append, List.append_assoc]
      rfl

end ScriptScrub.Build.Loop

namespace ScriptScrub.Build

/-- Several requests one after the other are a part of a history. -/
theorem History.requestAll {l₀ l : Loop} {rs : List Request} (h : History l₀ rs l)
    (reasons : List String) : ∃ qs, History l₀ qs (l.requestAll reasons) ∧
      qs.map (·.reason) = rs.map (·.reason) ++ reasons := by
  induction reasons generalizing l rs with
  | nil => exact ⟨rs, h, (List.append_nil _).symm⟩
  | cons reason reasons ih =>
      obtain ⟨qs, hqs, hreasons⟩ := ih (h.request reason)
      refine ⟨qs, hqs, hreasons.trans ?_⟩
      rw [List.map_append, List.append_assoc]
      rfl

end ScriptScrub.Build

namespace ScriptScrub.Watch

/-- What happens to a session: it is told an event, or it is ended. -/
inductive Act where
  | event (e : Event)
  | close
deriving Repr, DecidableEq

/-- The build that is due when a file is gone. -/
def Event.deletion? (e : Event) : Option Reason :=
  if e.kind = .unlink then some (.file .deleted e.path) else none

/-- The build that is due when anything has happened to a file. -/
def Event.change? (e : Event) : Option Reason :=
  match e.kind with
  | .add => some (.file .added e.path)
  | .change => some (.file .changed e.path)
  | .unlink => some (.file .deleted e.path)
  | .ready | .error => none

namespace Session

/-- The events before a session is ended for the first time. -/
def live : List Act → List Event
  | .event e :: as => e :: live as
  | _ => []

/-- The builds that are due for the events of a session: those for files that are gone while the
first scan goes on, one when it is over, and from then on one for everything that has happened to a
file. -/
def due (es : List Event) : List Reason :=
  (es.takeWhile (·.kind ≠ .ready)).filterMap Event.deletion? ++
    match es.dropWhile (·.kind ≠ .ready) with
    | [] => []
    | _ :: later => .initial :: later.filterMap Event.change?

/-- What a session does when something happens, and the build that it requests. -/
def act (s : Session) : Act → Session × Option Reason
  | .event e => ((s.handle e).1, (s.handle e).2.2)
  | .close => (s.close.1, none)

/-- What a session does when several things happen, and the builds that it requests. -/
def follow (s : Session) : List Act → Session × List Reason
  | [] => (s, [])
  | a :: as => (((s.act a).1.follow as).1, (s.act a).2.toList ++ ((s.act a).1.follow as).2)

/-! ## One event -/

variable {s : Session}

/-- A session that was stopped takes no notice of an event. -/
theorem handle_stopped (h : s.phase = .stopped) (e : Event) : s.handle e = (s, [], none) :=
  if_pos h

/-- While the first scan goes on, its end and every file that is gone bring a build. -/
theorem requested_before (hphase : s.phase ≠ .stopped) (hdone : s.initialBuildDone = false)
    (e : Event) :
    (s.handle e).2.2 = if e.kind = .ready then some .initial else e.deletion? := by
  obtain ⟨kind, path, message⟩ := e
  cases kind <;> simp [handle, hphase, scanned, changed, hdone, Event.deletion?]

/-- After the first scan, everything that has happened to a file brings a build. -/
theorem requested_after (hphase : s.phase ≠ .stopped) (hdone : s.initialBuildDone = true)
    (e : Event) : (s.handle e).2.2 = e.change? := by
  obtain ⟨kind, path, message⟩ := e
  cases kind <;> simp [handle, hphase, scanned, changed, hdone, Event.change?]

/-- The first scan is over from the moment on that a session is told so. -/
theorem initialBuildDone_handle (hphase : s.phase ≠ .stopped) (e : Event) :
    (s.handle e).1.initialBuildDone = (s.initialBuildDone || e.kind == .ready) := by
  obtain ⟨kind, path, message⟩ := e
  cases kind <;> cases hdone : s.initialBuildDone <;>
    simp [handle, hphase, scanned, changed, requesting, hdone]

/-- No event stops a session. -/
theorem phase_handle (hphase : s.phase ≠ .stopped) (e : Event) :
    (s.handle e).1.phase ≠ .stopped := by
  obtain ⟨kind, path, message⟩ := e
  cases kind <;> cases hdone : s.initialBuildDone <;>
    simp [handle, hphase, scanned, changed, requesting, hdone]

/-- Every build that is requested is counted. -/
theorem buildsRequested_handle (s : Session) (e : Event) :
    (s.handle e).1.buildsRequested = s.buildsRequested + (s.handle e).2.2.toList.length := by
  by_cases hphase : s.phase = .stopped
  · rw [handle_stopped hphase]
    rfl
  · obtain ⟨kind, path, message⟩ := e
    cases kind <;> cases hdone : s.initialBuildDone <;>
      simp [handle, hphase, scanned, changed, requesting, hdone]

/-- Ending a session stops it. -/
theorem phase_close (s : Session) : s.close.1.phase = .stopped := by
  unfold close
  split
  · next h => exact h
  · rfl

/-- Ending a session requests nothing. -/
theorem buildsRequested_close (s : Session) : s.close.1.buildsRequested = s.buildsRequested := by
  unfold close
  split <;> rfl

/-- Ending a session does not concern the first scan. -/
theorem initialBuildDone_close (s : Session) :
    s.close.1.initialBuildDone = s.initialBuildDone := by
  unfold close
  split <;> rfl

/-! ## All that happens -/

/-- Nothing that happens to a stopped session changes it. -/
theorem follow_stopped (h : s.phase = .stopped) (as : List Act) : s.follow as = (s, []) := by
  induction as with
  | nil => rfl
  | cons a as ih =>
      have hact : s.act a = (s, none) := by
        cases a with
        | event e => rw [act, handle_stopped h]
        | close => rw [act, close, if_pos h]
      rw [follow, hact, ih]
      rfl

/-- What happens in two parts. -/
theorem follow_append (s : Session) (as bs : List Act) :
    s.follow (as ++ bs) =
      (((s.follow as).1.follow bs).1, (s.follow as).2 ++ ((s.follow as).1.follow bs).2) := by
  induction as generalizing s with
  | nil => rfl
  | cons a as ih => rw [List.cons_append, follow, ih, follow, List.append_assoc]

/-- One thing more. -/
theorem follow_concat (s : Session) (as : List Act) (a : Act) :
    s.follow (as ++ [a]) =
      (((s.follow as).1.act a).1, (s.follow as).2 ++ ((s.follow as).1.act a).2.toList) := by
  rw [follow_append, follow, follow, List.append_nil]

/-- After the first scan, everything that happens to a file is due until the session is ended. -/
theorem requests_after (hphase : s.phase ≠ .stopped) (hdone : s.initialBuildDone = true)
    (as : List Act) : (s.follow as).2 = (live as).filterMap Event.change? := by
  induction as generalizing s with
  | nil => rfl
  | cons a as ih =>
      cases a with
      | event e =>
          have hstill : (s.handle e).1.initialBuildDone = true := by
            rw [initialBuildDone_handle hphase, hdone, Bool.true_or]
          have hrest := ih (phase_handle hphase e) hstill
          rw [follow, act, hrest, requested_after hphase hdone, live, List.filterMap_cons]
          cases e.change? <;> rfl
      | close =>
          rw [follow, act, follow_stopped (phase_close s)]
          rfl

/-- The builds that are due, one event after the other. -/
theorem due_cons (e : Event) (es : List Event) :
    due (e :: es) = if e.kind = .ready then .initial :: es.filterMap Event.change?
      else e.deletion?.toList ++ due es := by
  by_cases h : e.kind = .ready
  · simp [due, h]
  · cases hd : e.deletion? <;> simp [due, h, hd]

/-- **A session requests the builds that are due.** -/
theorem requests_follow (hphase : s.phase ≠ .stopped) (hdone : s.initialBuildDone = false)
    (as : List Act) : (s.follow as).2 = due (live as) := by
  induction as generalizing s with
  | nil => rfl
  | cons a as ih =>
      cases a with
      | event e =>
          have hnext := phase_handle hphase e
          have hover := initialBuildDone_handle hphase e
          rw [follow, act, requested_before hphase hdone, live, due_cons]
          by_cases hready : e.kind = .ready
          · rw [hdone, hready] at hover
            rw [if_pos hready, if_pos hready, requests_after hnext hover]
            rfl
          · have hstill : (s.handle e).1.initialBuildDone = false := by simp [hover, hdone, hready]
            rw [if_neg hready, if_neg hready, ih hnext hstill]
      | close =>
          rw [follow, act, follow_stopped (phase_close s)]
          rfl

/-- **A session counts the builds that it requests.** -/
theorem buildsRequested_follow (s : Session) (as : List Act) :
    (s.follow as).1.buildsRequested = s.buildsRequested + (s.follow as).2.length := by
  induction as generalizing s with
  | nil => rfl
  | cons a as ih =>
      rw [follow, ih, List.length_append, ← Nat.add_assoc]
      congr 1
      cases a with
      | event e => exact buildsRequested_handle s e
      | close => exact buildsRequested_close s

/-- **The first scan is over** from the first time on that a session is told so before it is
ended. -/
theorem initialBuildDone_follow (hphase : s.phase ≠ .stopped) (as : List Act) :
    (s.follow as).1.initialBuildDone =
      (s.initialBuildDone || (live as).any (·.kind == .ready)) := by
  induction as generalizing s with
  | nil => exact (Bool.or_false _).symm
  | cons a as ih =>
      cases a with
      | event e =>
          rw [follow, act, ih (phase_handle hphase e), initialBuildDone_handle hphase, live,
            List.any_cons, Bool.or_assoc]
      | close =>
          rw [follow, act, follow_stopped (phase_close s), initialBuildDone_close]
          exact (Bool.or_false _).symm

/-- **A session is stopped exactly if it was ended.** -/
theorem phase_follow (hphase : s.phase ≠ .stopped) (as : List Act) :
    (s.follow as).1.phase = .stopped ↔ .close ∈ as := by
  induction as generalizing s with
  | nil => exact iff_of_false hphase List.not_mem_nil
  | cons a as ih =>
      cases a with
      | event e =>
          rw [follow, act, ih (phase_handle hphase e)]
          simp
      | close =>
          rw [follow, act, follow_stopped (phase_close s)]
          exact iff_of_true (phase_close s) List.mem_cons_self

end Session

namespace Watcher

variable {ω : Type}

/-- What a watcher does when something happens. -/
def act (w : Watcher ω) : Act → Watcher ω
  | .event e => (w.handle e).1
  | .close => w.close.1

/-- What a watcher does when several things happen. -/
def follow (w : Watcher ω) (as : List Act) : Watcher ω := as.foldl act w

/-- A watcher tells its session of an event. -/
theorem session_handle (w : Watcher ω) (e : Event) :
    (w.handle e).1.session = (w.session.handle e).1 := by
  unfold handle
  split <;> next heq => rw [heq]

/-- **A watcher passes on the request** of its session to its builds, if there is one. -/
theorem builds_handle (w : Watcher ω) (e : Event) :
    (w.handle e).1.builds =
      w.builds.requestAll ((w.session.handle e).2.2.toList.map Reason.text) := by
  unfold handle
  split <;> next heq => rw [heq]; rfl

/-- A watcher tells its session what happens. -/
theorem session_act (w : Watcher ω) (a : Act) : (w.act a).session = (w.session.act a).1 := by
  cases a with
  | event e => exact w.session_handle e
  | close => rfl

/-- A watcher passes on what its session requests. -/
theorem builds_act (w : Watcher ω) (a : Act) :
    (w.act a).builds = w.builds.requestAll ((w.session.act a).2.toList.map Reason.text) := by
  cases a with
  | event e => exact w.builds_handle e
  | close => rfl

/-- **A watcher passes on all that its session requests**, in that order. -/
theorem follow_eq (w : Watcher ω) (as : List Act) :
    (w.follow as).session = (w.session.follow as).1 ∧
      (w.follow as).builds = w.builds.requestAll ((w.session.follow as).2.map Reason.text) := by
  induction as generalizing w with
  | nil => exact ⟨rfl, rfl⟩
  | cons a as ih =>
      obtain ⟨hsession, hbuilds⟩ := ih (w.act a)
      rw [session_act] at hsession hbuilds
      refine ⟨hsession, hbuilds.trans ?_⟩
      rw [Session.follow, List.map_append, Build.Loop.requestAll_append, ← builds_act]

/-- A watcher that has just been made has a session and builds without a past. -/
theorem fresh_of_make {settings : Config.WatchSettings} {root : List String} {w : Watcher ω}
    (h : Watcher.make settings root = .ok w) :
    w.session.phase = .initializing ∧ w.session.initialBuildDone = false ∧
      w.session.buildsRequested = 0 ∧ w.builds.launcher = { policy := settings.overlapPolicy } ∧
      w.observer = none := by
  unfold make Build.Loop.make at h
  split at h
  · cases h
  · cases h
    exact ⟨rfl, rfl, rfl, rfl, rfl⟩

end Watcher

/-- **The builds of a session**, whatever happens to it from the beginning. The reasons that are
passed on are those of the builds that are due, in their order, and all of them are counted; where
builds may overlap, each is one invocation. The first scan is over exactly after the event that says
so, if it comes before the session is ended; such an event brings no other build later on, and an
error never does. A session is stopped exactly if it was ended, and then no event changes it. -/
theorem session_request_history {ω : Type} {settings : Config.WatchSettings} {root : List String}
    {w : Watcher ω} (hmake : Watcher.make settings root = .ok w) (as : List Act) :
    let reasons := Session.due (Session.live as)
    let s := (w.follow as).session
    (w.session.follow as = (s, reasons) ∧
      (w.follow as).builds = w.builds.requestAll (reasons.map Reason.text) ∧
      (settings.overlapPolicy = .parallel →
        (w.follow as).builds.launcher.invocations.map (·.reason) = reasons.map Reason.text)) ∧
    s.buildsRequested = reasons.length ∧
    (s.initialBuildDone = true ↔ ∃ e ∈ Session.live as, e.kind = .ready) ∧
    (∀ e, e.kind = .error ∨ e.kind = .ready ∧ s.initialBuildDone = true →
      (s.handle e).2.2 = none) ∧
    (s.phase = .stopped ↔ .close ∈ as) ∧
    (s.phase = .stopped → ∀ e, s.handle e = (s, [], none)) := by
  obtain ⟨hphase, hdone, hcount, hlauncher, -⟩ := Watcher.fresh_of_make hmake
  have hrunning : w.session.phase ≠ .stopped := by simp [hphase]
  obtain ⟨hsession, hbuilds⟩ := w.follow_eq as
  have hreasons := Session.requests_follow hrunning hdone as
  rw [hreasons] at hbuilds
  intro reasons s
  have hs : s = (w.session.follow as).1 := hsession
  refine ⟨⟨?_, hbuilds, fun hparallel => ?_⟩, ?_, ?_, ?_, ?_, ?_⟩
  · exact Prod.ext hs.symm hreasons
  · rw [hbuilds, Build.Loop.reasons_requestAll (by rw [hlauncher, hparallel]), hlauncher]
    rfl
  · rw [hs, Session.buildsRequested_follow, hcount, hreasons, Nat.zero_add]
  · rw [hs, Session.initialBuildDone_follow hrunning, hdone, Bool.false_or, List.any_eq_true]
    simp
  · intro e he
    by_cases hstopped : s.phase = .stopped
    · rw [Session.handle_stopped hstopped]
    · rcases he with herror | ⟨hready, hover⟩
      · cases hstill : s.initialBuildDone with
        | true => rw [Session.requested_after hstopped hstill, Event.change?, herror]
        | false => simp [Session.requested_before hstopped hstill, Event.deletion?, herror]
      · rw [Session.requested_after hstopped hover, Event.change?, hready]
  · rw [hs, Session.phase_follow hrunning]
  · exact fun hstopped e => Session.handle_stopped hstopped e

/-- A file is gone during the first scan, another one changes after it, and a third one is gone when
the session has been ended. -/
theorem session_request_history_ended :
    let as : List Act := [.event ⟨.add, some "a.js", none⟩, .event ⟨.unlink, some "b.js", none⟩,
      .event ⟨.ready, none, none⟩, .event ⟨.ready, none, none⟩,
      .event ⟨.change, some "a.js", none⟩, .close, .event ⟨.unlink, some "a.js", none⟩]
    ∃ w : Watcher Unit, Watcher.make {} ["p"] = .ok w ∧
      (w.follow as).builds.launcher.invocations.map (·.reason) =
        ["deleted b.js", "initial build", "changed a.js"] ∧
      (w.follow as).session.buildsRequested = 3 := by
  intro as
  obtain ⟨w, hmake⟩ : ∃ w : Watcher Unit, Watcher.make {} ["p"] = .ok w := ⟨_, rfl⟩
  have hdue : Session.due (Session.live as) =
      [.file .deleted (some "b.js"), .initial, .file .changed (some "a.js")] := rfl
  obtain ⟨⟨-, -, hreasons⟩, hcount, -⟩ := session_request_history hmake as
  exact ⟨w, hmake, by rw [hreasons rfl, hdue]; rfl, by rw [hcount, hdue]; rfl⟩

end ScriptScrub.Watch
