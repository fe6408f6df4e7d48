import ScriptScrub.Batch.Run
import ScriptScrub.Proofs.Text.Utf8

/-!
# What processing a file comes to

`Processed` lists every way in which the processing of a file can end, with the files that it leaves
and the outcome that it tells (`processed_of_process`). A file fails because it cannot be read, its
text cannot be sanitized, or it cannot be written (`failure_of_process`, `failure_of_rewrite`,
`failure_of_sanitizeWith`), and a failure names the file, whoever reported it
(`path_of_sanitizeWith`).
-/

namespace ScriptScrub

/-- **Why a source has no tree**: the file has no dialect, or it has one and the failure is one of
parsing. -/
theorem Grammar.failure_of_parse {grammar : Grammar} {path : String} {source : Bytes}
    {failure : Failure} (h : grammar.parse path source = .error failure) :
    failure.path = path ∧
      (Dialect.ofPath? path = none ∧ failure.cause = .unsupportedType (Path.suffix path) ∨
        Dialect.ofPath? path ≠ none ∧ failure.cause.kind = .parse) := by
  unfold Grammar.parse at h
  split at h
  · next hnone =>
    cases h
    exact ⟨rfl, .inl ⟨hnone, rfl⟩⟩
  next dialect hsome =>
  have hdialect : Dialect.ofPath? path ≠ none := by simp [hsome]
  split at h
  · cases h
    exact ⟨rfl, .inr ⟨hdialect, rfl⟩⟩
  split at h
  · split at h
    · cases h
      exact ⟨rfl, .inr ⟨hdialect, rfl⟩⟩
    · cases h
      refine ⟨rfl, .inr ⟨hdialect, ?_⟩⟩
      dsimp only
      split <;> rfl
  · cases h

namespace Sanitizer

open Config (SanitizerSettings)

variable {first again : Grammar} {settings : SanitizerSettings} {path : String}

/-- **Why an output is refused**: it is blank, or it is no script any more. -/
theorem failure_of_checkOutput {parser : Parser} {edits : List RuleEdit} {output : Bytes}
    {failure : Failure} (h : checkOutput parser path edits output = .error failure) :
    isBlankOutput output = true ∧ failure = ⟨path, .noOutput, none⟩ ∨
      ∃ e : Failure, failure = ⟨path, .brokenRewrite e.cause, e.location⟩ := by
  unfold checkOutput at h
  split at h
  · next hblank =>
    cases h
    exact .inl ⟨hblank, rfl⟩
  split at h
  · cases h
  split at h
  · cases h
  · next e _ =>
    cases h
    exact .inr ⟨e, rfl⟩

/-- **Why a text cannot be sanitized**: it cannot be encoded, it is not parsed, or the output is
refused. -/
theorem failure_of_sanitizeWith {text : List CodePoint} {failure : Failure} {room : Scope.Room}
    (h : sanitizeWith first again settings text path room = .ok (.error failure)) :
    failure = ⟨path, .unencodable, none⟩ ∨ (∃ source, first.parse path source = .error failure) ∨
      ∃ edits output, checkOutput again.parse path edits output = .error failure := by
  unfold sanitizeWith sanitizeBy at h
  split at h
  · cases h
    exact .inl rfl
  split at h
  · next hfirst =>
    cases h
    exact .inr (.inl ⟨_, hfirst⟩)
  unfold rewriteTree at h
  dsimp only at h
  split at h
  · cases h
  split at h
  · cases h
  split at h
  · next hcheck =>
    cases h
    exact .inr (.inr ⟨_, _, hcheck⟩)
  · split at h <;> cases h

/-- **Sanitizing tells a failure under the path of the file.** -/
theorem path_of_sanitizeWith {text : List CodePoint} {failure : Failure} {room : Scope.Room}
    (h : sanitizeWith first again settings text path room = .ok (.error failure)) :
    failure.path = path := by
  rcases failure_of_sanitizeWith h with rfl | ⟨_, hfirst⟩ | ⟨_, _, hcheck⟩
  · rfl
  · exact (Grammar.failure_of_parse hfirst).1
  · rcases failure_of_checkOutput hcheck with ⟨-, rfl⟩ | ⟨e, rfl⟩ <;> rfl

end Sanitizer

namespace Batch

/-- How the processing of a file can end: the files that it leaves and the outcome that it tells. -/
inductive Processed (r : Runner) (files : FileTree) (here : List String) (task : Task) :
    FileTree → Outcome → Prop where
  /-- An excluded file is not looked at. -/
  | skipped (hx : task.excluded = true) : Processed r files here task files (.skipped task.path)
  /-- A file that fails is left as it is. -/
  | failed {after : FileTree} {failure : Failure} (hx : task.excluded = false)
      (ha : after = files ∨ after = r.meanwhile task.path files)
      (hpath : failure.path = task.path) :
      Processed r files here task after (.errored task.path failure)
  /-- A file whose text stays, or that is not to be written to, is left as it is. -/
  | kept {changed : Bool} (hx : task.excluded = false) :
      Processed r files here task (r.meanwhile task.path files) (.processed task.path changed)
  /-- A file is written to. -/
  | written {after : FileTree} {content : Bytes} (hx : task.excluded = false)
      (hdry : r.dryRun = false)
      (hw : r.write (r.meanwhile task.path files) here task.path content = .ok after) :
      Processed r files here task after (.processed task.path true)

section
variable {r : Runner} {files : FileTree} {here : List String} {task : Task}

/-- Processing a file that holds a text comes to sanitizing the text. -/
theorem process_of_decode (hx : task.excluded = false) {content : Bytes} {text : String}
    (hread : r.read files here task.path = .ok content)
    (hdecode : Text.decode? content = some text) :
    r.process files here task = r.rewrite files here task.path text := by
  simp only [Runner.process, hx, Bool.false_eq_true, if_false, hread, hdecode]

/-- So does processing a file that holds the bytes of the text. -/
theorem process_of_read (hx : task.excluded = false) {text : String}
    (hread : r.read files here task.path = .ok (Text.encode text)) :
    r.process files here task = r.rewrite files here task.path text :=
  process_of_decode hx hread (Text.decode?_encode text)

/-- **Inverting the processing of a file.** -/
theorem processed_of_process {done : Progress} {outcome : Outcome}
    (h : r.process files here task = .ok (done, outcome)) :
    Processed r files here task done.files outcome := by
  unfold Runner.process at h
  split at h
  · next hx =>
    cases h
    exact .skipped hx
  next hx =>
  have hx : task.excluded = false := Bool.eq_false_iff.2 hx
  split at h
  · cases h
    exact .failed hx (.inl rfl) rfl
  split at h
  · cases h
    exact .failed hx (.inl rfl) rfl
  unfold Runner.rewrite at h
  split at h
  · cases h
  next hsanitized =>
  dsimp only at h
  split at h
  · cases h
    exact .failed hx (.inr rfl) (Sanitizer.path_of_sanitizeWith hsanitized)
  next s =>
  split at h
  · next hwrite =>
    rw [Bool.and_eq_true, Bool.not_eq_true'] at hwrite
    split at h
    · next hw =>
      cases h
      rw [hwrite.1]
      exact .written hx hwrite.2 hw
    · cases h
      exact .failed hx (.inr rfl) rfl
  · cases h
    exact .kept hx

/-- **Why rewriting a file fails**: its text cannot be sanitized, or it was to be written and
cannot be. -/
theorem failure_of_rewrite {path text : String} {done : Progress} {outcome : Outcome}
    {failure : Failure} (h : r.rewrite files here path text = .ok (done, outcome))
    (hfailure : outcome.failure? = some failure) :
    Sanitizer.sanitizeWith r.grammar r.grammar r.sanitizer (text.toList.map (·.toNat)) path
        r.room = .ok (.error failure) ∨
      r.dryRun = false ∧ ∃ content e,
        r.write (r.meanwhile path files) here path content = .error e ∧
        failure.cause = .unwritable (e.message (Path.tidy path)) := by
  rw [Runner.rewrite] at h
  split at h
  · cases h
  dsimp only at h
  split at h
  · next hsanitized =>
    cases h
    cases hfailure
    exact .inl hsanitized
  split at h
  · next hwrite =>
    rw [Bool.and_eq_true, Bool.not_eq_true'] at hwrite
    split at h
    · cases h
      cases hfailure
    · next e hw =>
      cases h
      cases hfailure
      exact .inr ⟨hwrite.2, _, e, hw, rfl⟩
  · cases h
    cases hfailure

/-- **Why a file fails**: it is not excluded, and it cannot be read, or it holds a text and
rewriting it fails. -/
theorem failure_of_process {done : Progress} {outcome : Outcome} {failure : Failure}
    (h : r.process files here task = .ok (done, outcome))
    (hfailure : outcome.failure? = some failure) :
    task.excluded = false ∧ ((∃ reason, failure.cause = .unreadable reason) ∨
      ∃ content text, r.read files here task.path = .ok content ∧
        Text.decode? content = some text ∧
        r.rewrite files here task.path text = .ok (done, outcome)) := by
  unfold Runner.process at h
  split at h
  · cases h
    cases hfailure
  next hx =>
  refine ⟨Bool.eq_false_iff.2 hx, ?_⟩
  split at h
  · cases h
    cases hfailure
    exact .inl ⟨_, rfl⟩
  next content hread =>
  split at h
  · cases h
    cases hfailure
    exact .inl ⟨_, rfl⟩
  next text hdecode =>
  exact .inr ⟨content, text, hread, hdecode, h⟩

/-- A run finds its files, or it ends at once: it changes nothing, and the runner holds what it
held. -/
theorem discovers_or_ends (r : Runner) (files : FileTree) (here : List String) (root : String) :
    (files.leads here root = true ∧
      ∃ place tasks, r.discover files here root = .ok (place, tasks)) ∨
      ∃ e, ∀ held, r.runHolding held files here root = ⟨files, [], held, .error e⟩ := by
  cases hroot : files.leads here root with
  | false => exact .inr ⟨.noDirectory root, fun held => by simp [Runner.runHolding, hroot]⟩
  | true =>
      cases hdiscover : r.discover files here root with
      | error e => exact .inr ⟨e, fun held => by simp [Runner.runHolding, hroot, hdiscover]⟩
      | ok found => exact .inl ⟨rfl, found.1, found.2, rfl⟩

/-- **A run that finds its files** leaves what processing them leaves, and it ends with the counters
unless there was a breakdown. -/
theorem runHolding_of_discover (held : List Outcome) {root : String}
    (hroot : files.leads here root = true) {place : List String} {tasks : List Task}
    (hdiscover : r.discover files here root = .ok (place, tasks)) :
    let all := r.processAll here (r.start files place tasks) tasks
    let ended := r.runHolding held files here root
    ended.files = all.1.files ∧ ended.held = all.1.outcomes ∧
      ended.result = match all.2 with
        | some e => .error (.breakdown e)
        | none => .ok all.1.stats := by
  simp only [Runner.runHolding, hroot, Bool.not_true, Bool.false_eq_true, if_false, hdiscover]
  rcases r.processAll here (r.start files place tasks) tasks with ⟨after, _ | e⟩ <;>
    exact ⟨rfl, rfl, rfl⟩

end

end Batch

end ScriptScrub
