import ScriptScrub.Proofs.Batch.Discovery
import ScriptScrub.Proofs.Path.Matcher

/-!
# Pruning changes nothing

Ignored folders are not entered, which saves the walk through them. If the ignore patterns are plain
it is no more than that: everything below an ignored folder is ignored itself, so a walk that enters
every folder and leaves out the files that are ignored finds the same (`pruning_changes_nothing`).
-/

namespace ScriptScrub.Batch

open Config (BatchSettings)

/-- The files of a batch among some names below its root, each of them judged by its own path. -/
def tasksAmong (settings : BatchSettings) (m : Path.Matcher) (names : List (List String)) :
    List Task :=
  let paths := (names.filter (isCandidate settings m)).map fun names =>
    Path.absolute (m.root ++ names)
  (paths.mergeSort fun a b => decide (a ≤ b)).map fun p => ⟨p, isExcluded settings p⟩

/-- **With plain ignore patterns** all folders may be entered. -/
theorem tasks_eq_tasksAmong {settings : BatchSettings} {m : Path.Matcher} (hm : m.Plain)
    (files : FileTree) :
    tasks settings files m = tasksAmong settings m (files.namesBelow (fun _ => true) m.root) := by
  have hskip : ∀ here way, isEntered m here = false → way ≠ [] →
      isCandidate settings m (here ++ way) = false := by
    intro here way hentered hway
    rw [isEntered, Bool.not_eq_false'] at hentered
    rw [isCandidate, Path.Matcher.isIgnored_below hm hway hentered, Bool.not_true, Bool.and_false]
  rw [tasks, tasksAmong, files.filter_namesBelow m.root hskip]

/-- **Pruning changes nothing** as long as no ignore pattern has a sign of negation or a bracket.
Whatever is below an ignored directory is ignored, be it a file or a directory, so a batch finds the
same files as if its walk had entered every folder. -/
theorem pruning_changes_nothing {ignores : List String}
    (hplain : ∀ text ∈ ignores, Glob.PatternList.IsPlainText text) :
    (∀ {root includes : List String} {ignoreDotfiles : Bool} {m : Path.Matcher},
      Path.Matcher.read root includes ignores ignoreDotfiles = .ok m →
      ∀ dir names : List String, names ≠ [] → m.isIgnored (Path.relative dir) true = true →
        ∀ isDirectory, m.isIgnored (Path.relative (dir ++ names)) isDirectory = true) ∧
    ∀ {r : Runner} {files : FileTree} {here place : List String} {root : String}
      {m : Path.Matcher}, r.settings.ignoreGlobs = ignores →
      files.resolve here root = .ok place → matcher r.settings place = .ok m →
      r.discover files here root =
        .ok (place, tasksAmong r.settings m (files.namesBelow (fun _ => true) place)) := by
  refine ⟨fun hm dir names hne hdir isDirectory => ?_, fun hglobs hplace hm => ?_⟩
  · exact Path.Matcher.isIgnored_below (Path.Matcher.plain_of_read hm hplain).2 hne hdir isDirectory
  · obtain ⟨rfl, hmplain⟩ := Path.Matcher.plain_of_read hm (hglobs ▸ hplain)
    exact discover_eq_ok_iff.2 ⟨_, hplace, hm, (tasks_eq_tasksAmong hmplain _).symm⟩

/-- A runner that ignores the folders of dependencies. -/
def dependencyRunner : Runner where
  settings := { ignoreGlobs := ["**/deps/"] }
  grammar := fun _ _ => .error "no grammar"

/-- A script, and another one that it depends on. -/
def dependingFiles : FileTree :=
  ⟨[("a.js", .file []), ("lib", .folder [("deps", .folder [("b.js", .file [])])])]⟩

/-- The folder of dependencies is ignored at any depth, and so is the script in it. -/
theorem pruning_changes_nothing_dependencies :
    ∃ m, matcher dependencyRunner.settings [] = .ok m ∧
      m.isIgnored "lib/deps" true = true ∧ m.isIgnored "lib/deps/b.js" false = true ∧
      dependencyRunner.discover dependingFiles [] "/" = .ok ([], tasksAmong
        dependencyRunner.settings m (dependingFiles.namesBelow (fun _ => true) [])) := by
  have hplain : ∀ text ∈ dependencyRunner.settings.ignoreGlobs,
      Glob.PatternList.IsPlainText text := by decide +kernel
  have hdeps : ((matcher dependencyRunner.settings []).toOption.any
      (·.isIgnored "lib/deps" true)) = true := by decide +kernel
  obtain ⟨m, hm⟩ : ∃ m, matcher dependencyRunner.settings [] = .ok m := ⟨_, rfl⟩
  rw [hm] at hdeps
  have hplace := dependingFiles.resolve_root []
  obtain ⟨hbelow, hdiscover⟩ := pruning_changes_nothing hplain
  exact ⟨m, hm, hdeps, hbelow hm ["lib", "deps"] ["b.js"] (List.cons_ne_nil _ _) hdeps false,
    hdiscover rfl hplace hm⟩

end ScriptScrub.Batch
