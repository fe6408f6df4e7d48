import ScriptScrub.Proofs.Watch.Session
import ScriptScrub.Watch.Project

/-!
# Starting to watch while files change

The loop and the thread that reports changes run side by side. From the moment on that the observer
is scheduled, the thread makes events of reports and puts them into a queue, one by one, while the
start tells the events of the first scan; only when the start has returned does the loop take events
from the queue, and only then may the session be ended (`Threads.Step`). What every step keeps
(`Course.step`) holds in every run of the two (`Runs.course`): the events that were made are those
that were delivered, those in the queue and those that found nobody, in that order (`Queues`), the
session was told all events of the start first (`Starts`), and it has followed what it was told
(`Follows`).
-/

namespace ScriptScrub.Watch

/-! ## The two threads -/

/-- The events that an observer makes of a report. -/
def Observer.made (o : Observer) (files : FileTree) (s : Signal) : List Event :=
  match s.events files o.matcher with
  | .ok events => events
  | .error fault => [{ kind := .error, message := some fault.message }]

/-- An event that is handled leaves the observer of a watcher. -/
theorem Watcher.observer_handle (w : Watcher Observer) (e : Event) :
    (w.handle e).1.observer = w.observer := by
  unfold handle
  split <;> rfl

/-- A report is told as the events that are made of it, if there is somebody to tell them to. -/
theorem Observer.report_eq (o : Observer) (files : FileTree) (s : Signal) :
    o.report files s = if o.listening then o.made files s else [] := by
  unfold report
  cases o.listening <;> rfl

/-- From its start on, an observer has somebody to tell of events. -/
theorem Observer.listening_start (o : Observer) (files : FileTree) (r : Reporter) :
    (o.start files r).1.listening = true := by
  unfold start
  dsimp only
  split <;> rfl

/-- The events that a start tells: that the system does not report changes, if so, and then those of
the scan. A scan that fails ends the start, and nothing is told of it. -/
def startEvents (refusal : Option String) (scan : Except LinkLoop (List String)) : List Event :=
  (refusal.map fun message => { kind := .error, message := some message }).toList ++
    match scan with
    | .ok paths => Observer.scanEvents paths
    | .error _ => []

/-- What a start tells, and whether it comes to its end, follows from the refusal and the scan. -/
theorem Observer.start_eq (o : Observer) (files : FileTree) (r : Reporter) :
    (o.start files r).2.2.events = startEvents r.refusal (o.initialScan files) ∧
      (o.start files r).2.2.fault.isNone = (o.initialScan files).isOk := by
  -- The scan is that of the observer with other marks, which it does not look at.
  have hscan : ∀ running : Bool,
      ({ o with listening := true, running } : Observer).initialScan files =
        o.initialScan files := fun _ => rfl
  unfold start
  dsimp only
  rw [hscan]
  cases o.initialScan files <;> cases r.refusal <;> simp [startEvents, Except.isOk, Except.toBool]

/-- Something that happens while files are watched. -/
inductive Happening where
  /-- The start tells the session of an event; this build is requested. -/
  | told (e : Event) (request : Option Reason)
  /-- These events are made of a report. -/
  | reported (es : List Event)
  /-- The loop delivers an event of the queue to the session; this build is requested. -/
  | delivered (e : Event) (request : Option Reason)
  /-- An event finds nobody to be told to. -/
  | dropped (e : Event)
  | closed
deriving DecidableEq

/-- A watcher, and the thread that reports changes. -/
structure Threads where
  watcher : Watcher Observer
  /-- The observer that reports are made to; none before it is scheduled. -/
  observer : Option Observer := none
  /-- The events that the start has still to tell. -/
  untold : List Event := []
  /-- The start has ended with a fault, or will when it has told these events. -/
  failed : Bool := false
  /-- The events of a report that are not in the queue yet. -/
  unqueued : List Event := []
  queue : List Event := []

namespace Threads

/-- The start has returned. One that ends with a fault never does. -/
def Returned (t : Threads) : Prop := t.observer ≠ none ∧ t.untold = [] ∧ t.failed = false

/-- What one of the threads does next. The scan may come to anything, as files change meanwhile, and
every report sees the files as they are then. Builds go on by themselves. -/
inductive Step : Threads → Option Happening → Threads → Prop
  | schedule {t : Threads} (o : Observer) (files : FileTree) (r : Reporter)
      (scan : Except LinkLoop (List String)) (h : t.observer = none) :
      Step t none { t with
        watcher := { t.watcher.starting.1 with observer := some (o.start files r).1 }
        observer := some (o.start files r).1
        untold := startEvents r.refusal scan
        failed := !scan.isOk }
  | tell {t : Threads} {e : Event} {es : List Event} (h : t.untold = e :: es) :
      Step t (some (.told e (t.watcher.session.handle e).2.2))
        { t with watcher := (t.watcher.handle e).1, untold := es }
  | report {t : Threads} {o : Observer} (files : FileTree) (s : Signal) (ho : t.observer = some o)
      (h : t.unqueued = []) :
      Step t (some (.reported (o.made files s))) { t with unqueued := o.made files s }
  | enqueue {t : Threads} {o : Observer} {e : Event} {es : List Event} (ho : t.observer = some o)
      (hlistening : o.listening = true) (h : t.unqueued = e :: es) :
      Step t none { t with unqueued := es, queue := t.queue ++ [e] }
  | drop {t : Threads} {o : Observer} {e : Event} {es : List Event} (ho : t.observer = some o)
      (hlistening : o.listening = false) (h : t.unqueued = e :: es) :
      Step t (some (.dropped e)) { t with unqueued := es }
  | deliver {t : Threads} {e : Event} {es : List Event} (hreturned : t.Returned)
      (h : t.queue = e :: es) :
      Step t (some (.delivered e (t.watcher.session.handle e).2.2))
        { t with watcher := (t.watcher.handle e).1, queue := es }
  | close {t : Threads} (r : Reporter) (hreturned : t.Returned) :
      Step t (some .closed) { t with
        watcher := t.watcher.close.1
        observer := (t.watcher.close.2.2.map fun o => (o.stop r).1).or t.observer }
  | builds {t : Threads} {b : Build.Loop} (h : Build.History t.watcher.builds [] b) :
      Step t none { t with watcher := { t.watcher with builds := b } }

end Threads

/-- What the threads have done from the beginning, in this order. -/
inductive Runs (w : Watcher Observer) : List Happening → Threads → Prop
  | start : Runs w [] { watcher := w }
  | step {history : List Happening} {t t' : Threads} {what : Option Happening}
      (h : Runs w history t) (s : t.Step what t') : Runs w (history ++ what.toList) t'

/-! ## What is seen of a run -/

namespace Happening

/-- What happens to the session. -/
def acts : Happening → List Act
  | told e _ | delivered e _ => [.event e]
  | closed => [.close]
  | reported _ | dropped _ => []

/-- The build that is requested. -/
def requests : Happening → List Reason
  | told _ r | delivered _ r => r.toList
  | reported _ | dropped _ | closed => []

/-- The event that the start tells. -/
def tells : Happening → List Event
  | told e _ => [e]
  | _ => []

/-- The events that are made of a report. -/
def makes : Happening → List Event
  | reported es => es
  | _ => []

/-- The event that the loop delivers. -/
def delivers : Happening → List Event
  | delivered e _ => [e]
  | _ => []

/-- The event that finds nobody. -/
def drops : Happening → List Event
  | dropped e => [e]
  | _ => []

end Happening

/-- What is seen of one thing more. -/
theorem flatMap_concat {α : Type} (f : Happening → List α) (history : List Happening)
    (what : Happening) : (history ++ [what]).flatMap f = history.flatMap f ++ f what := by
  rw [List.flatMap_append, List.flatMap_singleton]

/-- The watcher has followed all that has happened to its session in a history. -/
structure Follows (w : Watcher Observer) (history : List Happening) (v : Watcher Observer) :
    Prop where
  session : w.session.follow (history.flatMap Happening.acts) =
    (v.session, history.flatMap Happening.requests)
  builds : ∃ rs, Build.History w.builds rs v.builds ∧
    rs.map (·.reason) = (history.flatMap Happening.requests).map Reason.text

section
variable {w v : Watcher Observer} {history : List Happening}

/-- A watcher follows an event that it is told or delivered. -/
theorem Follows.handle (h : Follows w history v) {e : Event} {what : Happening}
    (hacts : what.acts = [.event e]) (hrequests : what.requests = (v.session.handle e).2.2.toList) :
    Follows w (history ++ [what]) (v.handle e).1 := by
  obtain ⟨hsession, rs, hbuilds, hreasons⟩ := h
  constructor
  · rw [flatMap_concat, flatMap_concat, hacts, hrequests, Session.follow_concat, hsession,
      Watcher.session_handle]
    rfl
  · rw [flatMap_concat, hrequests, List.map_append, ← hreasons, Watcher.builds_handle]
    exact hbuilds.requestAll _

/-- A watcher follows when its session is ended. -/
theorem Follows.close (h : Follows w history v) : Follows w (history ++ [.closed]) v.close.1 := by
  obtain ⟨hsession, rs, hbuilds, hreasons⟩ := h
  constructor
  · rw [flatMap_concat, flatMap_concat, Happening.acts, Session.follow_concat, hsession]
    rfl
  · rw [flatMap_concat, Happening.requests, List.append_nil]
    exact ⟨rs, hbuilds, hreasons⟩

/-- A watcher does not notice what does not happen to its session. -/
theorem Follows.unnoticed (h : Follows w history v) {what : Happening} (hacts : what.acts = [])
    (hrequests : what.requests = []) : Follows w (history ++ [what]) v := by
  constructor
  · rw [flatMap_concat, flatMap_concat, hacts, hrequests, List.append_nil, List.append_nil]
    exact h.session
  · rw [flatMap_concat, hrequests, List.append_nil]
    exact h.builds

end

/-! ## What becomes of the events of reports -/

/-- The events that were made of reports are those that were delivered, those in the queue, and
those that found nobody or are not in the queue yet, in this order. Nobody listens only after the
session was ended. -/
structure Queues (history : List Happening) (t : Threads) : Prop where
  made : history.flatMap Happening.makes = history.flatMap Happening.delivers ++ t.queue ++
    history.flatMap Happening.drops ++ t.unqueued
  listening : ∀ o, t.observer = some o → o.listening = true → history.flatMap Happening.drops = []
  ended : (∃ o, t.observer = some o ∧ o.listening = false) ∨
    history.flatMap Happening.drops ≠ [] → .closed ∈ history
  same : ∀ o, t.watcher.observer = some o → t.observer = some o

section
variable {history : List Happening} {t t' : Threads}

/-- What concerns no report leaves their events where they are. -/
theorem Queues.unnoticed (h : Queues history t) {what : Happening} (hmakes : what.makes = [])
    (hdelivers : what.delivers = []) (hdrops : what.drops = []) (hqueue : t'.queue = t.queue)
    (hunqueued : t'.unqueued = t.unqueued) (hobserver : t'.observer = t.observer)
    (hwatcher : t'.watcher.observer = t.watcher.observer) : Queues (history ++ [what]) t' := by
  obtain ⟨hmade, hlistening, hended, hsame⟩ := h
  have hnone : (history ++ [what]).flatMap Happening.drops = history.flatMap Happening.drops := by
    rw [flatMap_concat, hdrops, List.append_nil]
  constructor
  · rw [hnone, flatMap_concat, flatMap_concat, hmakes, hdelivers, hqueue, hunqueued, hmade,
      List.append_nil, List.append_nil]
  · rwa [hnone, hobserver]
  · rw [hnone, hobserver]
    exact fun he => List.mem_append_left _ (hended he)
  · rwa [hobserver, hwatcher]

/-- Events made of a report come last. -/
theorem Queues.report (h : Queues history t) (hidle : t.unqueued = []) (es : List Event) :
    Queues (history ++ [.reported es]) { t with unqueued := es } := by
  obtain ⟨hmade, hlistening, hended, hsame⟩ := h
  rw [hidle, List.append_nil] at hmade
  constructor <;> simp only [flatMap_concat, Happening.makes, Happening.delivers, Happening.drops,
    List.append_nil]
  · rw [hmade]
  · exact hlistening
  · exact fun he => List.mem_append_left _ (hended he)
  · exact hsame

/-- While somebody listens, an event goes on to the end of the queue. -/
theorem Queues.enqueue (h : Queues history t) {o : Observer} {e : Event} {es : List Event}
    (ho : t.observer = some o) (hlistening : o.listening = true) (hnext : t.unqueued = e :: es) :
    Queues history { t with unqueued := es, queue := t.queue ++ [e] } := by
  refine ⟨?_, h.listening, h.ended, h.same⟩
  rw [h.made, h.listening o ho hlistening, hnext]
  simp

/-- When nobody listens any more, events find nobody. -/
theorem Queues.drop (h : Queues history t) {o : Observer} {e : Event} {es : List Event}
    (ho : t.observer = some o) (hlistening : o.listening = false) (hnext : t.unqueued = e :: es) :
    Queues (history ++ [.dropped e]) { t with unqueued := es } := by
  have hclosed : .closed ∈ history := h.ended (.inl ⟨o, ho, hlistening⟩)
  refine ⟨?_, fun o' ho' hl => ?_, fun _ => List.mem_append_left _ hclosed, h.same⟩
  · simp only [flatMap_concat, Happening.makes, Happening.delivers, Happening.drops, h.made, hnext]
    simp
  · rw [ho, Option.some.injEq] at ho'
    rw [ho', hl] at hlistening
    cases hlistening

/-- The first event of the queue is delivered. -/
theorem Queues.deliver (h : Queues history t) {e : Event} {es : List Event} (r : Option Reason)
    (hnext : t.queue = e :: es) :
    Queues (history ++ [.delivered e r])
      { t with watcher := (t.watcher.handle e).1, queue := es } := by
  obtain ⟨hmade, hlistening, hended, hsame⟩ := h
  constructor <;> simp only [flatMap_concat, Happening.makes, Happening.delivers, Happening.drops,
    List.append_nil]
  · rw [hmade, hnext]
    simp
  · exact hlistening
  · exact fun he => List.mem_append_left _ (hended he)
  · rwa [Watcher.observer_handle]

/-- Nobody begins to listen when an observer stops. -/
theorem listening_of_stop {o : Observer} {r : Reporter} (h : (o.stop r).1.listening = true) :
    o.listening = true := by
  unfold Observer.stop at h
  split at h
  · cases h
  · exact h

/-- When the session is ended, its observer stops. -/
theorem Queues.close (h : Queues history t) (r : Reporter) :
    Queues (history ++ [.closed]) { t with
      watcher := t.watcher.close.1
      observer := (t.watcher.close.2.2.map fun o => (o.stop r).1).or t.observer } := by
  obtain ⟨hmade, hlistening, hended, hsame⟩ := h
  constructor <;> simp only [flatMap_concat, Happening.makes, Happening.delivers, Happening.drops,
    List.append_nil]
  · exact hmade
  · intro o ho hl
    cases hw : t.watcher.observer with
    | none =>
        simp only [Watcher.close, hw, Option.map_none, Option.none_or] at ho
        exact hlistening o ho hl
    | some o' =>
        simp only [Watcher.close, hw, Option.map_some, Option.some_or, Option.some.injEq] at ho
        subst ho
        exact hlistening o' (hsame o' hw) (listening_of_stop hl)
  · exact fun _ => List.mem_append_right _ (.head _)
  · nofun

end

/-! ## What the start has told -/

/-- Nothing has happened before the observer is scheduled, and afterwards the session is told all
events of the start before anything else happens to it. -/
structure Starts (history : List Happening) (t : Threads) : Prop where
  fresh : t.observer = none → history = [] ∧ t.untold = []
  told : t.observer ≠ none → ∃ refusal scan later, t.failed = !scan.isOk ∧
    history.flatMap Happening.tells ++ t.untold = startEvents refusal scan ∧
    history.flatMap Happening.acts = (history.flatMap Happening.tells).map .event ++ later ∧
    (¬ t.Returned → later = [])

section
variable {history : List Happening} {t t' : Threads}

/-- The start tells its next event. -/
theorem Starts.tell (h : Starts history t) {e : Event} {es : List Event} (r : Option Reason)
    (hnext : t.untold = e :: es) (huntold : t'.untold = es) (hfailed : t'.failed = t.failed)
    (hobserver : t'.observer = t.observer) : Starts (history ++ [.told e r]) t' := by
  have hscheduled : t.observer ≠ none := by
    intro hnone
    rw [(h.fresh hnone).2] at hnext
    cases hnext
  obtain ⟨refusal, scan, later, hscan, hall, hacts, hlater⟩ := h.told hscheduled
  have hnil : later = [] := hlater fun hreturned => by
    have := hreturned.2.1
    simp [hnext] at this
  refine ⟨fun hnone => absurd (hobserver ▸ hnone) hscheduled,
    fun _ => ⟨refusal, scan, [], hfailed.trans hscan, ?_, ?_, fun _ => rfl⟩⟩
  · rw [flatMap_concat, Happening.tells, huntold, ← hall, hnext, List.append_assoc,
      List.singleton_append]
  · rw [flatMap_concat, flatMap_concat, Happening.tells, Happening.acts, hacts, hnil]
    simp

/-- Something else happens. To the session this is so only when the start has returned. -/
theorem Starts.other (h : Starts history t) {what : Happening} (hscheduled : t.observer ≠ none)
    (htells : what.tells = []) (hacts : what.acts = [] ∨ t.Returned)
    (huntold : t'.untold = t.untold) (hfailed : t'.failed = t.failed)
    (hobserver : t'.observer ≠ none) : Starts (history ++ [what]) t' := by
  obtain ⟨refusal, scan, later, hscan, hall, hhistory, hlater⟩ := h.told hscheduled
  refine ⟨fun hnone => absurd hnone hobserver,
    fun _ => ⟨refusal, scan, later ++ what.acts, hfailed.trans hscan, ?_, ?_, fun hnot => ?_⟩⟩
  · rw [flatMap_concat, htells, List.append_nil, huntold, hall]
  · rw [flatMap_concat, flatMap_concat, htells, List.append_nil, hhistory, List.append_assoc]
  · have hnot' : ¬ t.Returned := fun hreturned =>
      hnot ⟨hobserver, huntold.trans hreturned.2.1, hfailed.trans hreturned.2.2⟩
    rw [hlater hnot', hacts.resolve_right hnot', List.append_nil]

end

/-! ## Runs -/

/-- How the state of the threads follows from what has happened. -/
structure Course (w : Watcher Observer) (history : List Happening) (t : Threads) : Prop where
  follows : Follows w history t.watcher
  queues : Queues history t
  starts : Starts history t

section
variable {w : Watcher Observer} {history : List Happening} {t t' : Threads}

/-- **Every step keeps the threads on their course.** -/
theorem Course.step (hphase : w.session.phase = .initializing) (h : Course w history t)
    {what : Option Happening} (s : t.Step what t') : Course w (history ++ what.toList) t' := by
  obtain ⟨hfollows, hqueues, hstarts⟩ := h
  cases s with
  | schedule o files r scan hnone =>
      obtain ⟨rfl, huntold⟩ := hstarts.fresh hnone
      refine ⟨⟨?_, hfollows.builds⟩, ⟨hqueues.made, fun _ _ _ => rfl, ?_, fun _ ho => ho⟩,
        ⟨nofun, ?_⟩⟩
      · -- The session was not told anything, so setting it back does not change it.
        have hsession : w.session = t.watcher.session := congrArg Prod.fst hfollows.session
        simp [Watcher.starting, ← hsession, ← hphase, Session.follow]
      · rintro (⟨o', ho', hl⟩ | hne)
        · cases ho'
          rw [Observer.listening_start] at hl
          cases hl
        · exact absurd rfl hne
      · exact fun _ => ⟨r.refusal, scan, [], rfl, rfl, rfl, fun _ => rfl⟩
  | @tell e es hnext =>
      exact ⟨hfollows.handle rfl rfl,
        hqueues.unnoticed rfl rfl rfl rfl rfl rfl (t.watcher.observer_handle e),
        hstarts.tell _ hnext rfl rfl rfl⟩
  | report files s ho hidle =>
      exact ⟨hfollows.unnoticed rfl rfl, hqueues.report hidle _,
        hstarts.other (by simp [ho]) rfl (.inl rfl) rfl rfl (by simp [ho])⟩
  | enqueue ho hlistening hnext =>
      rw [Option.toList_none, List.append_nil]
      exact ⟨hfollows, hqueues.enqueue ho hlistening hnext, ⟨hstarts.fresh, hstarts.told⟩⟩
  | drop ho hlistening hnext =>
      exact ⟨hfollows.unnoticed rfl rfl, hqueues.drop ho hlistening hnext,
        hstarts.other (by simp [ho]) rfl (.inl rfl) rfl rfl (by simp [ho])⟩
  | deliver hreturned hnext =>
      exact ⟨hfollows.handle rfl rfl, hqueues.deliver _ hnext,
        hstarts.other hreturned.1 rfl (.inr hreturned) rfl rfl hreturned.1⟩
  | close r hreturned =>
      refine ⟨hfollows.close, hqueues.close r,
        hstarts.other hreturned.1 rfl (.inr hreturned) rfl rfl ?_⟩
      simp [hreturned.1]
  | builds hbuilds =>
      rw [Option.toList_none, List.append_nil]
      obtain ⟨rs, hhistory, hreasons⟩ := hfollows.builds
      exact ⟨⟨hfollows.session, rs, hhistory.trans hbuilds, hreasons⟩,
        ⟨hqueues.made, hqueues.listening, hqueues.ended, hqueues.same⟩,
        ⟨hstarts.fresh, hstarts.told⟩⟩

/-- Whatever has happened was a step of a run. -/
theorem Runs.split (h : Runs w history t) {before after : List Happening} {what : Happening}
    (hsplit : history = before ++ what :: after) :
    ∃ t₁ t₂, Runs w before t₁ ∧ t₁.Step (some what) t₂ := by
  induction h generalizing after with
  | start => exact absurd hsplit (by simp)
  | @step history t t' last h s ih =>
      cases last with
      | none => exact ih (by simpa using hsplit)
      | some last =>
          rcases List.eq_nil_or_concat after with rfl | ⟨after, x, rfl⟩
          · obtain ⟨rfl, heq⟩ := List.append_inj' hsplit rfl
            cases heq
            exact ⟨t, t', h, s⟩
          · rw [List.concat_eq_append, ← List.cons_append, ← List.append_assoc] at hsplit
            exact ih (List.append_inj' hsplit rfl).1

end

end ScriptScrub.Watch
