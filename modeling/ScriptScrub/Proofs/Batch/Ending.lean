import ScriptScrub.Proofs.Batch.Isolation
import ScriptScrub.Proofs.FileTree.Way
import ScriptScrub.Proofs.Result

/-!
# How a run ends

A run whose sanitizer gives a result for every text ends with counters, or it does not begin: its
root does not exist, or one of the ignore patterns cannot be read (`run_ends`). A run that does not
begin changes no file, and the outcomes that the runner holds stay. A pattern that cannot be read is
found only when the run is to begin (`unreadable_pattern_ends_run`).
-/

namespace ScriptScrub

namespace Glob.PatternList

/-- A text that a pattern list takes: a blank one, or one that is read as a pattern. -/
def IsReadable (anchored : Bool) (text : String) : Prop :=
  (Text.trim text).isEmpty = true ∨ ∃ p, Pattern.read (tidy anchored text) = .ok p

instance (anchored : Bool) (text : String) : Decidable (IsReadable anchored text) :=
  decidable_of_iff ((Text.trim text).isEmpty = true ∨
    (Pattern.read (tidy anchored text)).isOk = true) (or_congr_right exists_ok_iff.symm)

/-- **Patterns are read** exactly if each of them is. -/
theorem exists_read_iff {anchored : Bool} {texts : List String} :
    (∃ l, read anchored texts = .ok l) ↔ ∀ text ∈ texts, IsReadable anchored text := by
  have hgiven : (∀ t ∈ (texts.filter fun t => !(Text.trim t).isEmpty).map (tidy anchored),
      ∃ p, Pattern.read t = .ok p) ↔ ∀ text ∈ texts, IsReadable anchored text := by
    simp only [List.forall_mem_map, List.mem_filter, Bool.not_eq_true', and_imp, IsReadable,
      ← Bool.not_eq_true, or_iff_not_imp_left]
  rw [← hgiven, ← exists_mapM_iff, read]
  split
  · next hempty =>
    rw [List.isEmpty_iff.1 hempty]
    exact iff_of_true ⟨none, rfl⟩ ⟨[], rfl⟩
  · constructor
    · rintro ⟨l, h⟩
      obtain ⟨ps, hps, -⟩ := bind_eq_ok.1 h
      exact ⟨ps, hps⟩
    · rintro ⟨ps, hps⟩
      exact ⟨some ⟨ps.filterMap id⟩, by rw [hps]; rfl⟩

end Glob.PatternList

namespace Batch

open Config (BatchSettings)

/-- **The ignore patterns of a batch are read** exactly if each of them is. -/
theorem exists_matcher_iff (settings : BatchSettings) (place : List String) :
    (∃ m, matcher settings place = .ok m) ↔
      ∀ text ∈ settings.ignoreGlobs, Glob.PatternList.IsReadable false text := by
  have hdotfiles : Glob.PatternList.IsReadable false Path.Matcher.dotfiles := by decide +kernel
  have hall : (∀ text ∈ Path.Matcher.withDotfiles settings.ignoreDotfiles settings.ignoreGlobs,
      Glob.PatternList.IsReadable false text) ↔
      ∀ text ∈ settings.ignoreGlobs, Glob.PatternList.IsReadable false text := by
    rw [Path.Matcher.withDotfiles]
    split
    · rw [List.forall_mem_append, List.forall_mem_singleton]
      exact and_iff_left hdotfiles
    · rfl
  rw [← hall, ← Glob.PatternList.exists_read_iff, matcher, Path.Matcher.read]
  constructor
  · rintro ⟨m, h⟩
    obtain ⟨_, -, h⟩ := bind_eq_ok.1 h
    obtain ⟨l, hl, -⟩ := bind_eq_ok.1 h
    exact ⟨l, hl⟩
  · rintro ⟨l, hl⟩
    exact ⟨_, by rw [hl]; rfl⟩

/-- The sanitizer gives a result for every text, whatever the path. -/
def Runner.Returns (r : Runner) : Prop := ∀ (text path : String), ∃ result,
  Sanitizer.sanitizeWith r.grammar r.grammar r.sanitizer (text.toList.map (·.toNat)) path r.room =
    .ok result

section
variable {r : Runner} {files : FileTree} {here : List String}

/-- A file is processed to some outcome. -/
theorem Runner.Returns.exists_process (h : r.Returns) (files : FileTree) (here : List String)
    (task : Task) :
    ∃ done outcome, r.process files here task = .ok (done, outcome) := by
  rw [Runner.process]
  split
  · exact ⟨_, _, rfl⟩
  split
  · exact ⟨_, _, rfl⟩
  split
  · exact ⟨_, _, rfl⟩
  next text _ =>
  obtain ⟨result, hresult⟩ := h text task.path
  rw [Runner.rewrite, hresult]
  dsimp only
  split
  · exact ⟨_, _, rfl⟩
  split
  · split <;> exact ⟨_, _, rfl⟩
  · exact ⟨_, _, rfl⟩

/-- **All files are processed.** -/
theorem Runner.Returns.processAll (h : r.Returns) (tally : Tally) (tasks : List Task) :
    (r.processAll here tally tasks).2 = none := by
  induction tasks generalizing tally with
  | nil => rfl
  | cons task tasks ih =>
      obtain ⟨done, outcome, hdone⟩ := h.exists_process tally.files here task
      rw [Runner.processAll, hdone]
      exact ih _

/-- **How a run ends.** Without its root it ends at once with this error, and only so. With its root
it ends with counters exactly if every ignore pattern can be read; else it ends with the pattern
that cannot. A run that ends with an error has changed no file and no outcome that the runner
holds. -/
theorem run_ends (h : r.Returns) (held : List Outcome) (files : FileTree) (here : List String)
    (root : String) :
    let ended := r.runHolding held files here root
    (ended.result = .error (.noDirectory root) ↔ files.leads here root = false) ∧
    (files.leads here root = true →
      ((∃ stats, ended.result = .ok stats) ↔
        ∀ text ∈ r.settings.ignoreGlobs, Glob.PatternList.IsReadable false text)) ∧
    ∀ e, ended.result = .error e →
      (e = .noDirectory root ∨ ∃ p, e = .badPattern p) ∧ ended = ⟨files, [], held, .error e⟩ := by
  cases hroot : files.leads here root with
  | false =>
      have hended : r.runHolding held files here root =
          ⟨files, [], held, .error (.noDirectory root)⟩ := by
        simp [Runner.runHolding, hroot]
      rw [hended]
      refine ⟨iff_of_true rfl rfl, fun hthere => absurd hthere Bool.false_ne_true,
        fun e he => ?_⟩
      cases he
      exact ⟨.inl rfl, rfl⟩
  | true =>
      obtain ⟨place, hplace⟩ := FileTree.exists_resolve_of_leads hroot
      rw [← exists_matcher_iff r.settings place]
      cases hm : matcher r.settings place with
      | error p =>
          have hended : r.runHolding held files here root =
              ⟨files, [], held, .error (.badPattern p)⟩ := by
            simp [Runner.runHolding, hroot, Runner.discover, hplace, hm, Except.mapError, bind,
              Except.bind]
          rw [hended]
          refine ⟨iff_of_false (by simp) (by simp), fun _ => iff_of_false (by simp) (by simp),
            fun e he => ?_⟩
          cases he
          exact ⟨.inr ⟨p, rfl⟩, rfl⟩
      | ok m =>
          obtain ⟨-, -, hresult⟩ :=
            runHolding_of_discover held hroot (discover_eq_ok_iff.2 ⟨m, hplace, hm, rfl⟩)
          rw [h.processAll] at hresult
          dsimp only
          rw [hresult]
          refine ⟨iff_of_false (by simp) (by simp), fun _ => iff_of_true ⟨_, rfl⟩ ⟨m, rfl⟩,
            fun e he => ?_⟩
          cases he

end

/-- A runner for whose files no grammar is to be had, with some ignore patterns. -/
def withoutGrammars (ignoreGlobs : List String) : Runner where
  settings := { ignoreGlobs }
  grammar := fun _ _ => .error "no grammar"

/-- It gives a result for every text: a failure. -/
theorem returns_withoutGrammars (ignoreGlobs : List String) :
    (withoutGrammars ignoreGlobs).Returns := by
  intro text path
  rw [Sanitizer.sanitizeWith, Sanitizer.sanitizeBy, Text.encode?_toNat]
  dsimp only [Grammar.parse, withoutGrammars]
  cases Dialect.ofPath? path with
  | none => exact ⟨_, rfl⟩
  | some dialect => exact ⟨_, rfl⟩

/-- With the usual ignore patterns a run over a script ends with counters. -/
theorem run_ends_singleScript : ∃ stats,
    ((withoutGrammars
      ["node_modules/", "dist/", "build/"]).runHolding [] singleScript [] "/").result =
      .ok stats := by
  have hleads := singleScript.leads_root []
  obtain ⟨-, hcounters, -⟩ := run_ends (returns_withoutGrammars _) [] singleScript [] "/"
  exact (hcounters hleads).2 (by decide +kernel)

/-- **A pattern that cannot be read ends a run** whose root is there: a lone exclamation mark takes
back nothing. -/
theorem unreadable_pattern_ends_run :
    (withoutGrammars ["!"]).Returns ∧ singleScript.leads [] "/" = true ∧
    ((withoutGrammars ["!"]).runHolding [] singleScript [] "/").result =
      .error (.badPattern (.invalid "!")) := by
  have hleads := singleScript.leads_root []
  have hplace := singleScript.resolve_root []
  have hm : matcher (withoutGrammars ["!"]).settings [] = .error (.invalid "!") := by
    decide +kernel
  refine ⟨returns_withoutGrammars _, hleads, ?_⟩
  simp [Runner.runHolding, hleads, Runner.discover, hplace, hm, Except.mapError, bind, Except.bind]

end Batch

end ScriptScrub
