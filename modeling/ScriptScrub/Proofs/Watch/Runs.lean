import ScriptScrub.Proofs.Watch.Threads

/-!
# Runs of a watched project

Every run can go on until nothing is left to do for the two threads (`Runs.completed`). What a
project does when it starts, takes a report, is closed or takes the turns of its builds is a part of
a run (`runs_start`, `Runs.report`, `Runs.close`, `Runs.settle`).
-/

namespace ScriptScrub.Watch

/-! ## Runs to the end -/

/-- A watcher takes the first of several events before the others. -/
theorem Watcher.handleAll_cons (w : Watcher Observer) (e : Event) (es : List Event) :
    (w.handleAll (e :: es)).1 = ((w.handle e).1.handleAll es).1 := rfl

section
variable {w : Watcher Observer} {history : List Happening} {t : Threads}

/-- The start can go on until it has told everything. -/
theorem Runs.tellAll (h : Runs w history t) : ∃ more,
    Runs w (history ++ more)
      { t with watcher := (t.watcher.handleAll t.untold).1, untold := [] } ∧
    ∀ what ∈ more, ∃ e r, what = .told e r := by
  generalize hes : t.untold = es
  induction es generalizing history t with
  | nil =>
      refine ⟨[], ?_, by simp⟩
      cases t
      cases hes
      rwa [List.append_nil]
  | cons e es ih =>
      obtain ⟨more, hrun, htold⟩ := ih (h.step (.tell hes)) rfl
      rw [Option.toList_some, List.append_assoc] at hrun
      rw [Watcher.handleAll_cons]
      exact ⟨_, hrun, List.forall_mem_cons.2 ⟨⟨_, _, rfl⟩, htold⟩⟩

/-- While somebody listens, all events of a report can go on into the queue. -/
theorem Runs.enqueueAll (h : Runs w history t) {o : Observer} (ho : t.observer = some o)
    (hlistening : o.listening = true) :
    Runs w history { t with queue := t.queue ++ t.unqueued, unqueued := [] } := by
  generalize hes : t.unqueued = es
  induction es generalizing t with
  | nil =>
      cases t
      cases hes
      rwa [List.append_nil]
  | cons e es ih =>
      have hnext := h.step (.enqueue ho hlistening hes)
      rw [Option.toList_none, List.append_nil] at hnext
      simpa using ih hnext ho rfl

/-- When nobody listens any more, all events of a report can go. -/
theorem Runs.dropAll (h : Runs w history t) {o : Observer} (ho : t.observer = some o)
    (hlistening : o.listening = false) :
    Runs w (history ++ t.unqueued.map .dropped) { t with unqueued := [] } := by
  generalize hes : t.unqueued = es
  induction es generalizing history t with
  | nil =>
      cases t
      cases hes
      rwa [List.map_nil, List.append_nil]
  | cons e es ih => simpa using ih (h.step (.drop ho hlistening hes)) ho rfl

/-- When the start has returned, all events of the queue can be delivered. -/
theorem Runs.deliverAll (h : Runs w history t) (hreturned : t.Returned) : ∃ more,
    Runs w (history ++ more)
      { t with watcher := (t.watcher.handleAll t.queue).1, queue := [] } ∧
    ∀ what ∈ more, ∃ e r, what = .delivered e r := by
  generalize hes : t.queue = es
  induction es generalizing history t with
  | nil =>
      refine ⟨[], ?_, by simp⟩
      cases t
      cases hes
      rwa [List.append_nil]
  | cons e es ih =>
      obtain ⟨more, hrun, hdelivered⟩ := ih (h.step (.deliver hreturned hes)) hreturned rfl
      rw [Option.toList_some, List.append_assoc] at hrun
      rw [Watcher.handleAll_cons]
      exact ⟨_, hrun, List.forall_mem_cons.2 ⟨⟨_, _, rfl⟩, hdelivered⟩⟩

end

/-! ## Projects -/

/-- The threads are at rest, and the project has the same watcher. -/
structure Rests (t : Threads) (p : Project) : Prop where
  watcher : t.watcher = p.watcher
  returned : t.Returned
  queue : t.queue = []
  unqueued : t.unqueued = []
  observer : ∀ o, p.watcher.observer = some o → t.observer = some o

/-- The observer of a watcher stays while it takes events. -/
theorem Watcher.observer_handleAll (w : Watcher Observer) (es : List Event) :
    (w.handleAll es).1.observer = w.observer := by
  induction es generalizing w with
  | nil => rfl
  | cons e es ih => rw [handleAll_cons, ih, observer_handle]

/-- A start of a project that comes to its end tells all events of the start. -/
theorem Project.start_cases {p : Project} (h : p.start.2.2 = none) : ∃ o : Observer,
    (o.initialScan p.files).isOk = true ∧
    p.start.1.watcher = (({ p.watcher.starting.1 with
        observer := some (o.start p.files p.reporter).1 } : Watcher Observer).handleAll
      (startEvents p.reporter.refusal (o.initialScan p.files))).1 := by
  cases hmake : Observer.make p.root p.settings with
  | error e => simp [start, hmake] at h
  | ok o =>
      simp only [start, hmake, Option.map_eq_none_iff] at h
      obtain ⟨hevents, hfault⟩ := o.start_eq p.files p.reporter
      refine ⟨o, by rw [← hfault, h, Option.isNone_none], ?_⟩
      simp only [start, hmake, Watcher.observe, hevents]

/-- **A project that has started to watch** has come there by a run. -/
theorem runs_start {p : Project} (h : p.start.2.2 = none) :
    ∃ history t, Runs p.watcher history t ∧ Rests t p.start.1 := by
  obtain ⟨o, hscan, hstart⟩ := Project.start_cases h
  have hschedule : Runs p.watcher _ _ :=
    Runs.start.step (.schedule o p.files p.reporter (o.initialScan p.files) rfl)
  obtain ⟨more, hrun, -⟩ := hschedule.tellAll
  refine ⟨_, _, hrun, hstart.symm, ⟨nofun, rfl, ?_⟩, rfl, rfl, fun o' ho' => ?_⟩
  · rw [hscan]
    rfl
  · rwa [hstart, Watcher.observer_handleAll] at ho'

section
variable {w : Watcher Observer} {history : List Happening} {t : Threads} {p : Project}

/-- **A project that is told of a report** goes on by a run. -/
theorem Runs.report (h : Runs w history t) (hrests : Rests t p) (s : Signal) : ∃ more t',
    Runs w (history ++ more) t' ∧ Rests t' (p.report s).1 := by
  obtain ⟨hwatcher, hreturned, hqueue, hunqueued, hsame⟩ := hrests
  cases hobserver : p.watcher.observer with
  | none =>
      have hreport : (p.report s).1 = p := by rw [Project.report, hobserver]
      refine ⟨[], t, by rwa [List.append_nil], ?_⟩
      rw [hreport]
      exact ⟨hwatcher, hreturned, hqueue, hunqueued, hsame⟩
  | some o =>
      have ho := hsame o hobserver
      have hmade := h.step (.report p.files s ho hunqueued)
      have hreport : (p.report s).1.watcher =
          (p.watcher.handleAll (if o.listening then o.made p.files s else [])).1 := by
        rw [Project.report, hobserver, ← Observer.report_eq]
      have hstays : ∀ o', (p.report s).1.watcher.observer = some o' → t.observer = some o' := by
        rw [hreport, Watcher.observer_handleAll]
        exact hsame
      cases hlistening : o.listening with
      | false =>
          have hrun := hmade.dropAll ho hlistening
          rw [List.append_assoc] at hrun
          refine ⟨_, _, hrun, ?_, hreturned, hqueue, rfl, hstays⟩
          rw [hreport, hlistening]
          exact hwatcher
      | true =>
          obtain ⟨more, hrun, -⟩ := (hmade.enqueueAll ho hlistening).deliverAll hreturned
          rw [List.append_assoc] at hrun
          refine ⟨_, _, hrun, ?_, hreturned, rfl, rfl, hstays⟩
          simp only [hreport, hlistening, hqueue, hwatcher, List.nil_append, if_true]

/-- A project that is closed goes on by a run. -/
theorem Runs.close (h : Runs w history t) (hrests : Rests t p) : ∃ t',
    Runs w (history ++ [.closed]) t' ∧ Rests t' p.close.1 := by
  obtain ⟨hwatcher, hreturned, hqueue, hunqueued, hsame⟩ := hrests
  refine ⟨_, h.step (.close p.reporter hreturned), ?_, ⟨?_, hreturned.2⟩, hqueue, hunqueued, nofun⟩
  · rw [hwatcher]
    rfl
  · simp [hreturned.1]

/-- A project that takes all turns of its builds goes on by a run. -/
theorem Runs.settle (h : Runs w history t) (hrests : Rests t p) : ∃ t',
    Runs w history t' ∧ Rests t' p.settle.1 := by
  obtain ⟨hwatcher, hreturned, hqueue, hunqueued, hsame⟩ := hrests
  have hrun := h.step (.builds (Build.History.start.run))
  rw [Option.toList_none, List.append_nil] at hrun
  refine ⟨_, hrun, ?_, hreturned, hqueue, hunqueued, hsame⟩
  rw [hwatcher]
  rfl

end

end ScriptScrub.Watch
