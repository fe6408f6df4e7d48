import Mathlib.Data.List.Forall2
import ScriptScrub.Proofs.Batch.Processing

/-!
# The counters of a batch

Between any two files the counters of a run agree with the outcomes so far (`Counts`): one step
keeps that (`Counts.record`), so it holds after every part of the files, and a run that ends without
a breakdown has one outcome for each file, in the order of the files (`fits_processAll`). What a
runner holds from an earlier run has no part in it (`runHolding_congr`), so all of this holds in
every series of runs on one runner (`accounted_runEach`).
-/

namespace ScriptScrub.Batch

/-! ## Counters and outcomes -/

/-- The counters are those of the outcomes. -/
structure Counts (outcomes : List Outcome) (stats : Stats) : Prop where
  all : stats.processed + stats.errors = outcomes.length
  errors : stats.errors = outcomes.countP (·.status = .errored)
  skipped : stats.skipped = outcomes.countP (·.status = .skipped)
  changed : stats.changed = outcomes.countP (·.changed)
  /-- Only a file that is processed and not skipped counts as changed. -/
  apart : stats.changed + stats.skipped ≤ stats.processed

/-- No outcomes are counted by zeros. -/
theorem counts_nil (total : Int) : Counts [] { total } := ⟨rfl, rfl, rfl, rfl, Nat.le_refl _⟩

/-- **One more outcome is counted**, whatever it is. -/
theorem Counts.record {outcomes : List Outcome} {stats : Stats} (h : Counts outcomes stats)
    (o : Outcome) : Counts (outcomes ++ [o]) (stats.record o.status o.changed) := by
  obtain ⟨hall, herrors, hskipped, hchanged, hapart⟩ := h
  cases o with
  | skipped p => constructor <;> simp [Stats.record, List.countP_append] <;> omega
  | errored p f => constructor <;> simp [Stats.record, List.countP_append] <;> omega
  | processed p c => cases c <;> constructor <;> simp [Stats.record, List.countP_append] <;> omega

/-- The total is not counted. -/
theorem total_record (stats : Stats) (status : Status) (changed : Bool) :
    (stats.record status changed).total = stats.total := by
  cases status <;> rfl

/-! ## Outcomes and files -/

/-- The outcome is one of the file: it has its path, it is skipped exactly if the file is excluded,
and if it failed it tells why, under that path, and nothing has changed. -/
structure Tells (task : Task) (outcome : Outcome) : Prop where
  path : outcome.path = task.path
  skipped : outcome.status = .skipped ↔ task.excluded = true
  failed : outcome.status = .errored → outcome.changed = false ∧
    ∃ failure, outcome.failure? = some failure ∧ failure.report.path = outcome.path

/-- **Processing a file tells its outcome.** -/
theorem Processed.tells {r : Runner} {files after : FileTree} {here : List String} {task : Task}
    {outcome : Outcome} (h : Processed r files here task after outcome) : Tells task outcome := by
  cases h with
  | skipped hx => exact ⟨rfl, iff_of_true rfl hx, nofun⟩
  | failed hx _ hpath =>
      exact ⟨rfl, iff_of_false nofun (Bool.eq_false_iff.1 hx), fun _ => ⟨rfl, _, rfl, hpath⟩⟩
  | kept hx => exact ⟨rfl, iff_of_false nofun (Bool.eq_false_iff.1 hx), nofun⟩
  | written hx => exact ⟨rfl, iff_of_false nofun (Bool.eq_false_iff.1 hx), nofun⟩

/-- As many outcomes are skipped as files are excluded. -/
theorem countP_skipped {tasks : List Task} {outcomes : List Outcome}
    (h : List.Forall₂ Tells tasks outcomes) :
    outcomes.countP (·.status = .skipped) = tasks.countP (·.excluded) := by
  induction h with
  | nil => rfl
  | cons hfirst _ ih =>
      rw [List.countP_cons, List.countP_cons, ih]
      simp only [decide_eq_true_eq, hfirst.skipped]

/-! ## The loop over the files -/

section
variable {r : Runner} {here : List String}

/-- The counters of a run at some point, and its outcomes, belong to the files so far. -/
structure Tally.Fits (tally : Tally) (tasks : List Task) : Prop where
  each : List.Forall₂ Tells tasks tally.outcomes
  counts : Counts tally.outcomes tally.stats

/-- One file more. -/
theorem Tally.Fits.add {tally : Tally} {tasks : List Task} (h : tally.Fits tasks) {task : Task}
    {done : Progress} {outcome : Outcome}
    (hdone : r.process tally.files here task = .ok (done, outcome)) :
    (tally.add done outcome).Fits (tasks ++ [task]) :=
  ⟨List.rel_append h.each (.cons (processed_of_process hdone).tells .nil),
    h.counts.record outcome⟩

variable (r here) in
/-- **The counters agree with the outcomes after every part of the files**: those that were
processed are the first ones, and all of them unless there was a breakdown. -/
theorem fits_processAll {tally : Tally} {before : List Task} (h : tally.Fits before)
    (tasks : List Task) :
    ∃ done rest, tasks = done ++ rest ∧ (r.processAll here tally tasks).1.Fits (before ++ done) ∧
      ((r.processAll here tally tasks).2 = none → rest = []) ∧
      (r.processAll here tally tasks).1.stats.total = tally.stats.total := by
  induction tasks generalizing tally before with
  | nil => exact ⟨[], [], rfl, by rwa [List.append_nil], fun _ => rfl, rfl⟩
  | cons task tasks ih =>
      rw [Runner.processAll]
      split
      · exact ⟨[], task :: tasks, rfl, by rwa [List.append_nil], nofun, rfl⟩
      · next done outcome hdone =>
        obtain ⟨first, rest, rfl, hfits, hall, htotal⟩ := ih (h.add hdone)
        refine ⟨task :: first, rest, rfl, ?_, hall, ?_⟩
        · rwa [List.append_assoc] at hfits
        · rw [htotal, Tally.add, total_record]

/-- A run begins with no outcome. -/
theorem fits_start (files : FileTree) (place : List String) (tasks : List Task) :
    (r.start files place tasks).Fits [] :=
  ⟨.nil, counts_nil _⟩

end

/-! ## Runs -/

/-- The outcomes and the counters are those of a run over the files. -/
structure Accounted (tasks : List Task) (outcomes : List Outcome) (stats : Stats) : Prop where
  /-- There is one outcome for each file, in their order. -/
  each : List.Forall₂ Tells tasks outcomes
  total : stats.total = tasks.length
  sum : stats.processed + stats.errors = stats.total
  skipped : stats.skipped = tasks.countP (·.excluded)
  errors : stats.errors = outcomes.countP (·.status = .errored)
  changed : stats.changed = outcomes.countP (·.changed)
  apart : stats.changed + stats.skipped ≤ stats.processed

section
variable {r : Runner} {files : FileTree} {here : List String} {root : String}

/-- **A run that ends with counters** has gone over all discovered files. -/
theorem accounted_runHolding {held : List Outcome} {stats : Stats}
    (h : (r.runHolding held files here root).result = .ok stats) :
    ∃ place tasks, r.discover files here root = .ok (place, tasks) ∧
      Accounted tasks (r.runHolding held files here root).held stats := by
  obtain ⟨hroot, place, tasks, hdiscover⟩ | ⟨e, hended⟩ := discovers_or_ends r files here root
  case inr =>
    rw [hended] at h
    cases h
  obtain ⟨-, hheld, hresult⟩ := runHolding_of_discover held hroot hdiscover
  obtain ⟨done, rest, hsplit, hfits, hall, htotal⟩ :=
    fits_processAll r here (fits_start files place tasks) tasks
  rw [hheld]
  rw [h] at hresult
  split at hresult
  · cases hresult
  next hend =>
  cases hresult
  obtain rfl := hall hend
  rw [List.append_nil] at hsplit
  subst hsplit
  refine ⟨place, tasks, hdiscover, hfits.each, htotal, ?_, ?_, hfits.counts.errors,
    hfits.counts.changed, hfits.counts.apart⟩
  · rw [htotal]
    exact congrArg Nat.cast (hfits.counts.all.trans hfits.each.length_eq.symm)
  · exact hfits.counts.skipped.trans (countP_skipped hfits.each)

/-- A run that ends with counters takes nothing from what the runner held. -/
theorem runHolding_congr {held held' : List Outcome} {stats : Stats}
    (h : (r.runHolding held files here root).result = .ok stats) :
    r.runHolding held files here root = r.runHolding held' files here root := by
  unfold Runner.runHolding at h ⊢
  split at h
  · cases h
  next hleads =>
  split at h
  · cases h
  simp only [if_neg hleads]

end

/-- **Batches are accounted for.** In every series of runs on one runner, whatever it holds at the
beginning: a run that ends with counters has one outcome for each discovered file, counts them all,
and is the same as on a runner that holds nothing; and at every point of every run the counters
agree with the outcomes so far. -/
theorem accounted_runEach (held : List Outcome) (requests : List Request) :
    List.Forall₂ (fun (q : Request) (ended : Ended) =>
      (∀ stats, ended.result = .ok stats →
        (∃ place tasks, q.runner.discover q.files q.here q.root = .ok (place, tasks) ∧
          Accounted tasks ended.held stats) ∧
        ended = q.runner.runHolding [] q.files q.here q.root) ∧
      ∀ place tasks, q.runner.discover q.files q.here q.root = .ok (place, tasks) →
        ∀ done, done <+: tasks →
          let tally := (q.runner.processAll q.here (q.runner.start q.files place tasks) done).1
          tally.stats.processed + tally.stats.errors = tally.outcomes.length)
      requests (runEach held requests) := by
  induction requests generalizing held with
  | nil => exact .nil
  | cons q qs ih =>
      refine .cons ⟨fun stats h => ⟨accounted_runHolding h, runHolding_congr h⟩, ?_⟩ (ih _)
      intro place tasks _ done _
      obtain ⟨_, _, -, hfits, -, -⟩ :=
        fits_processAll q.runner q.here (fits_start q.files place tasks) done
      exact hfits.counts.all

end ScriptScrub.Batch
