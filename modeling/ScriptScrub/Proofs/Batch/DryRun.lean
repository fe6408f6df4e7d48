import ScriptScrub.Proofs.Batch.Isolation

/-!
# Dry runs

A dry run changes no file (`files_dryRun`). A run that writes sees each file as the dry run sees it,
as long as no two of the discovered paths lead to one file: when it is the turn of a file, nobody
has written to it yet. So both come to the same outcomes and counters, unless some write fails
(`dryRun_foresees`).
-/

namespace ScriptScrub

namespace Batch

/-- The runner, writing what it sanitizes or not. -/
def Runner.withDryRun (r : Runner) (dry : Bool) : Runner := { r with dryRun := dry }

/-- The outcome of a file that could not be written to. -/
def Outcome.WriteFailed (o : Outcome) : Prop :=
  ∃ failure reason, o.failure? = some failure ∧ failure.cause = .unwritable reason

section
variable {r : Runner} {files now : FileTree} {here : List String} {task : Task}

/-- Whether it writes or not, a runner discovers the same files. -/
theorem discover_withDryRun (dry : Bool) (root : String) :
    (r.withDryRun dry).discover files here root = r.discover files here root := rfl

/-- How a file ends in a dry run and in one that writes: both break down, or they end alike, or the
write fails. -/
inductive Foreseen : Except Sanitizer.Breakdown (Progress × Outcome) →
    Except Sanitizer.Breakdown (Progress × Outcome) → Prop where
  | breakdown (e : Sanitizer.Breakdown) : Foreseen (.error e) (.error e)
  | same (done done' : Progress) (outcome : Outcome) :
      Foreseen (.ok (done, outcome)) (.ok (done', outcome))
  | writeFailed (done done' : Progress) (outcome : Outcome) {outcome' : Outcome}
      (h : outcome'.WriteFailed) : Foreseen (.ok (done, outcome)) (.ok (done', outcome'))

/-- What becomes of a text is foreseen. -/
theorem foreseen_rewrite (path text : String) :
    Foreseen ((r.withDryRun true).rewrite files here path text)
      ((r.withDryRun false).rewrite now here path text) := by
  rw [Runner.rewrite, Runner.rewrite]
  dsimp only [Runner.withDryRun]
  split
  · exact .breakdown _
  split
  · exact .same _ _ _
  simp only [Bool.not_true, Bool.and_false, Bool.false_eq_true, if_false, Bool.not_false,
    Bool.and_true]
  split
  · next hchanged =>
    split
    · exact .same _ _ _
    · exact .writeFailed _ _ _ ⟨_, _, rfl, rfl⟩
  · exact .same _ _ _

/-- **What becomes of a file is foreseen** if it still has the content that the dry run reads. -/
theorem foreseen_process (hread : task.excluded = false →
      now.read here task.path = files.read here task.path) :
    Foreseen ((r.withDryRun true).process files here task)
      ((r.withDryRun false).process now here task) := by
  rw [Runner.process, Runner.process]
  split
  · exact .same _ _ _
  next hx =>
  have hsame : (r.withDryRun false).read now here task.path =
      (r.withDryRun true).read files here task.path := by
    rw [Runner.read, Runner.read, hread (Bool.eq_false_iff.2 hx)]
    rfl
  rw [hsame]
  split
  · exact .same _ _ _
  split
  · exact .same _ _ _
  · exact foreseen_rewrite _ _

/-! ## All files -/

/-- A dry run changes nothing when it processes a file. -/
theorem files_process_dryRun (hr : r.Undisturbed) (hdry : r.dryRun = true) {done : Progress}
    {outcome : Outcome} (h : r.process files here task = .ok (done, outcome)) :
    done.files = files := by
  have hprocessed := processed_of_process h
  generalize done.files = after at hprocessed ⊢
  cases hprocessed with
  | skipped _ => rfl
  | failed _ ha _ => rwa [hr, or_self] at ha
  | kept _ => exact hr _ _
  | written _ hwrites _ =>
      rw [hdry] at hwrites
      cases hwrites

/-- The outcomes so far stay. -/
theorem mem_outcomes_processAll (tally : Tally) (tasks : List Task) {o : Outcome}
    (h : o ∈ tally.outcomes) : o ∈ (r.processAll here tally tasks).1.outcomes := by
  induction tasks generalizing tally with
  | nil => exact h
  | cons task tasks ih =>
      rw [Runner.processAll]
      split
      · exact h
      · exact ih _ (List.mem_append_left _ h)

/-- The paths of two files do not lead to one place, unless one of the two is excluded. -/
def Apart (files : FileTree) (here : List String) (a b : Task) : Prop :=
  ∀ x, Targets files here a x → ¬ Targets files here b x

/-- The files that are still to be processed can be read as at the beginning. -/
structure Untouched (files now : FileTree) (here : List String) (tasks : List Task) : Prop where
  alike : files.Alike now
  content : ∀ task ∈ tasks, ∀ x, Targets files here task x → now.content? x = files.content? x

/-- A file that is still to be processed is read as at the beginning. -/
theorem Untouched.read {tasks : List Task} (h : Untouched files now here tasks)
    (htask : task ∈ tasks) (hx : task.excluded = false) :
    now.read here task.path = files.read here task.path :=
  h.alike.read fun x hplace => h.content task htask x ⟨hx, hplace⟩

/-- **Processing a file leaves the others untouched.** -/
theorem Untouched.process (hr : r.Undisturbed) {tasks : List Task}
    (h : Untouched files now here (task :: tasks))
    (hapart : ∀ other ∈ tasks, Apart files here task other)
    {done : Progress} {outcome : Outcome} (hdone : r.process now here task = .ok (done, outcome)) :
    Untouched files done.files here tasks := by
  have hkeeps := (processed_of_process hdone).keeps hr
  refine ⟨h.alike.trans hkeeps.alike, fun other hother x hx => ?_⟩
  rw [hkeeps.content x, h.content other (.tail _ hother) x hx]
  rintro ⟨hincluded, hplace⟩
  rw [h.alike.locate] at hplace
  exact hapart other hother x ⟨hincluded, hplace⟩ hx

/-- **What becomes of all files is foreseen**: a dry run and a run that writes come to the same
outcomes, counters and end, if no write fails. -/
theorem processAll_foreseen (hr : r.Undisturbed) {tasks : List Task}
    (hapart : tasks.Pairwise (Apart files here)) (dry real : Tally) (hfiles : dry.files = files)
    (huntouched : Untouched files real.files here tasks) (houtcomes : dry.outcomes = real.outcomes)
    (hstats : dry.stats = real.stats)
    (hwrites : ∀ o ∈ ((r.withDryRun false).processAll here real tasks).1.outcomes,
      ¬ o.WriteFailed) :
    let foreseen := (r.withDryRun true).processAll here dry tasks
    let actual := (r.withDryRun false).processAll here real tasks
    foreseen.1.outcomes = actual.1.outcomes ∧ foreseen.1.stats = actual.1.stats ∧
      foreseen.2 = actual.2 := by
  induction tasks generalizing dry real with
  | nil => exact ⟨houtcomes, hstats, rfl⟩
  | cons task tasks ih =>
      obtain ⟨hfirst, hrest⟩ := List.pairwise_cons.1 hapart
      -- Both runs read the same of the first file, and writing to it leaves the others untouched.
      have hforeseen : Foreseen ((r.withDryRun true).process dry.files here task)
          ((r.withDryRun false).process real.files here task) :=
        hfiles ▸ foreseen_process (huntouched.read List.mem_cons_self)
      rw [Runner.processAll] at hwrites
      rw [Runner.processAll, Runner.processAll]
      generalize hdry : (r.withDryRun true).process dry.files here task = p at hforeseen ⊢
      generalize hreal : (r.withDryRun false).process real.files here task = q
        at hforeseen hwrites ⊢
      cases hforeseen with
      | breakdown e => exact ⟨houtcomes, hstats, rfl⟩
      | same done done' outcome =>
          have hlater := huntouched.process (r := r.withDryRun false) hr hfirst hreal
          refine ih hrest _ _ ?_ hlater ?_ ?_ hwrites
          · exact (files_process_dryRun (r := r.withDryRun true) hr rfl hdry).trans hfiles
          · rw [Tally.add, Tally.add, houtcomes]
          · rw [Tally.add, Tally.add, hstats]
      | writeFailed done done' outcome h =>
          refine absurd h (hwrites _ (mem_outcomes_processAll _ _ ?_))
          exact List.mem_append_right _ List.mem_cons_self

/-! ## Runs -/

/-- A dry run changes nothing when it processes files one after the other. -/
theorem files_processAll_dryRun (hr : r.Undisturbed) (hdry : r.dryRun = true) (tally : Tally)
    (tasks : List Task) : (r.processAll here tally tasks).1.files = tally.files := by
  induction tasks generalizing tally with
  | nil => rfl
  | cons task tasks ih =>
      rw [Runner.processAll]
      split
      · rfl
      · next hdone => exact (ih _).trans (files_process_dryRun hr hdry hdone)

/-- **A dry run changes no file.** -/
theorem files_dryRun (hr : r.Undisturbed) (hdry : r.dryRun = true) (held : List Outcome)
    (files : FileTree) (here : List String) (root : String) :
    (r.runHolding held files here root).files = files := by
  obtain ⟨hroot, place, tasks, hdiscover⟩ | ⟨e, hended⟩ := discovers_or_ends r files here root
  · rw [(runHolding_of_discover held hroot hdiscover).1]
    exact files_processAll_dryRun hr hdry _ _
  · rw [hended]

/-- **A dry run foresees what a run comes to** that writes. It changes no file. If no two of the
discovered paths lead to one file, and no write fails in the other run, both end with the same
counters, or for the same reason without them, and with the same outcomes. -/
theorem dryRun_foresees (hr : r.Undisturbed) (held : List Outcome) (files : FileTree)
    (here : List String) (root : String) :
    let dry := (r.withDryRun true).runHolding held files here root
    let real := (r.withDryRun false).runHolding held files here root
    dry.files = files ∧
      ((∀ place tasks, r.discover files here root = .ok (place, tasks) →
          tasks.Pairwise (Apart files here)) →
        (∀ o ∈ ((r.withDryRun false).runHolding [] files here root).held, ¬ o.WriteFailed) →
        dry.result = real.result ∧ dry.held = real.held) := by
  refine ⟨files_dryRun (r := r.withDryRun true) hr rfl held files here root,
    fun hapart hwrites => ?_⟩
  cases hroot : files.leads here root with
  | false => simp [Runner.runHolding, hroot]
  | true =>
      cases hdiscover : r.discover files here root with
      | error e => simp [Runner.runHolding, hroot, discover_withDryRun, hdiscover]
      | ok found =>
          obtain ⟨-, hheld, -⟩ :=
            runHolding_of_discover (r := r.withDryRun false) [] hroot hdiscover
          rw [hheld] at hwrites
          obtain ⟨houtcomes, hstats, hend⟩ := processAll_foreseen hr (hapart _ _ hdiscover)
            ((r.withDryRun true).start files found.1 found.2)
            ((r.withDryRun false).start files found.1 found.2) rfl
            ⟨.refl _, fun _ _ _ _ => rfl⟩ rfl rfl hwrites
          obtain ⟨-, hdryHeld, hdryResult⟩ :=
            runHolding_of_discover (r := r.withDryRun true) held hroot hdiscover
          obtain ⟨-, hrealHeld, hrealResult⟩ :=
            runHolding_of_discover (r := r.withDryRun false) held hroot hdiscover
          rw [hdryHeld, hrealHeld, hdryResult, hrealResult, hend, hstats]
          exact ⟨rfl, houtcomes⟩

end

/-- The run over a single script that writes changes the script. -/
theorem held_singleScript :
    ((usualRunner.withDryRun false).runHolding [] singleScript [] "/").held =
      [.processed "/a.js" true] := by
  have hleads := singleScript.leads_root []
  have hplace := singleScript.resolve_root []
  obtain ⟨m, -, -, -, hdiscover⟩ := discover_usualRunner
  have hlocate : singleScript.locate [] "/a.js" = .ok ["a.js"] := by
    have hpath : Path.absolute ["a.js"] = "/a.js" := by decide +kernel
    rw [← hpath]
    exact FileTree.locate_absolute (e := .file (Text.encode "f//")) (by decide +kernel) rfl
      (by simp [Entry.shape]) []
  have hread : singleScript.read [] "/a.js" = .ok (Text.encode "f//") :=
    FileTree.read_of_locate hlocate rfl
  have hdecoded : Text.decode? (Text.encode "f//") = some "f//" := by decide +kernel
  have hsanitized : Sanitizer.sanitizeWith Script.grammar Script.grammar {} [102, 47, 47] "/a.js" =
      .ok (.ok ⟨"f", 0, 1⟩) := by decide +kernel
  have hwritten : singleScript.write [] "/a.js" (Text.encode "f") =
      .ok (singleScript.put ["a.js"] (.file (Text.encode "f"))) :=
    FileTree.write_eq_ok_iff.2 ⟨_, Text.encode "f//", hlocate, rfl, rfl⟩
  rw [(runHolding_of_discover (r := usualRunner.withDryRun false) [] hleads
    (hdiscover singleScript hplace rfl)).2.1]
  simp [usualRunner, Runner.withDryRun, Runner.processAll, Runner.start, Runner.process,
    Runner.read, Runner.rewrite, Runner.write, hread, hdecoded, hsanitized, hwritten, Tally.add]

/-- A dry run over the script tells that it would be changed. -/
theorem dryRun_foresees_singleScript :
    ((usualRunner.withDryRun true).runHolding [] singleScript [] "/").files = singleScript ∧
    ((usualRunner.withDryRun true).runHolding [] singleScript [] "/").held =
      [.processed "/a.js" true] := by
  have hplace := singleScript.resolve_root []
  obtain ⟨m, -, -, -, hdiscover⟩ := discover_usualRunner
  obtain ⟨hfiles, hforesees⟩ :=
    dryRun_foresees (r := usualRunner) (fun _ _ => rfl) [] singleScript [] "/"
  refine ⟨hfiles, ?_⟩
  rw [(hforesees (fun place tasks hfound => ?_) (fun o ho hfailed => ?_)).2]
  · exact held_singleScript
  · rw [hdiscover singleScript hplace rfl] at hfound
    cases hfound
    exact List.pairwise_singleton _ _
  · rw [held_singleScript, List.mem_singleton] at ho
    subst ho
    obtain ⟨failure, reason, hfailure, -⟩ := hfailed
    cases hfailure

end Batch

end ScriptScrub
