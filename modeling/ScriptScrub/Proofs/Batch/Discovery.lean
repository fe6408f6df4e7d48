import ScriptScrub.Batch.Run
import ScriptScrub.Proofs.FileTree.Walk
import ScriptScrub.Proofs.Path.Dotfiles

/-!
# What is discovered

A discovered file lies below the root of the batch, neither it nor a folder on the way to it is
ignored, and it is marked as excluded exactly if it is (`discovered_of_mem_tasks`). No path is
discovered twice (`nodup_tasks`), and where dotfiles are ignored none is along a name that begins
with a dot (`Discovered.not_isDotted`).
-/

namespace ScriptScrub.Batch

open Config (BatchSettings)

/-- The names lead from the root of a batch to something that is no folder, and the file of the
batch that they stand for. -/
structure Discovered (settings : BatchSettings) (files : FileTree) (m : Path.Matcher) (task : Task)
    (names : List String) : Prop where
  path : task.path = Path.absolute (m.root ++ names)
  excluded : task.excluded = isExcluded settings task.path
  entry : ∃ e, files.get? (m.root ++ names) = some e ∧ e.shape ≠ .folder
  hasExtension : hasExtension settings (names.getLastD "") = true
  notIgnored : m.isIgnored (Path.relative names) false = false
  entered : ∀ q, q <+: names → q ≠ [] → q ≠ names → m.isIgnored (Path.relative q) true = false

/-- What is discovered is told by the place of the root and the matcher at it. -/
theorem discover_eq_ok_iff {r : Runner} {files : FileTree} {here place : List String}
    {root : String} {found : List Task} :
    r.discover files here root = .ok (place, found) ↔
      ∃ m, files.resolve here root = .ok place ∧ matcher r.settings place = .ok m ∧
        found = tasks r.settings files m := by
  rw [Runner.discover]
  cases files.resolve here root with
  | error e => exact iff_of_false nofun (by rintro ⟨m, h, -⟩; cases h)
  | ok base =>
      cases hm : matcher r.settings base with
      | error e =>
          simp only [Except.mapError, bind, Except.bind, hm]
          refine iff_of_false nofun ?_
          rintro ⟨m, h, hm', -⟩
          cases h
          rw [hm] at hm'
          cases hm'
      | ok m =>
          simp only [Except.mapError, bind, Except.bind, hm, pure, Except.pure, Except.ok.injEq,
            Prod.mk.injEq]
          constructor
          · rintro ⟨rfl, rfl⟩
            exact ⟨m, rfl, hm, rfl⟩
          · rintro ⟨m', rfl, hm', rfl⟩
            rw [hm] at hm'
            cases hm'
            exact ⟨rfl, rfl⟩

section
variable {settings : BatchSettings} {files : FileTree} {m : Path.Matcher}

/-- **The files of a batch are discovered.** -/
theorem discovered_of_mem_tasks (hwell : files.WellNamed) {task : Task}
    (h : task ∈ tasks settings files m) : ∃ names, Discovered settings files m task names := by
  rw [tasks, List.mem_map] at h
  obtain ⟨path, hpath, rfl⟩ := h
  rw [List.mem_mergeSort, List.mem_map] at hpath
  obtain ⟨names, hnames, rfl⟩ := hpath
  obtain ⟨hfound, hcandidate⟩ := List.mem_filter.1 hnames
  obtain ⟨hentry, hentered⟩ := FileTree.found_of_mem_namesBelow hwell hfound
  rw [isCandidate, Bool.and_eq_true, Bool.not_eq_true'] at hcandidate
  refine ⟨names, rfl, rfl, hentry, hcandidate.1, hcandidate.2, fun q hq hnil hne => ?_⟩
  have := hentered q hq hnil hne
  rwa [isEntered, Bool.not_eq_true'] at this

/-- The way to a discovered file is made of names. -/
theorem Discovered.isName {task : Task} {names : List String}
    (h : Discovered settings files m task names) (hwell : files.WellNamed) :
    ∀ n ∈ m.root ++ names, Path.IsName n := by
  obtain ⟨e, he, -⟩ := h.entry
  exact hwell.isName he

/-- **A file along a name that begins with a dot is not discovered** where dotfiles are ignored,
unless there is a line break in the way. -/
theorem Discovered.not_isDotted {task : Task} {names root includes ignores : List String}
    (h : Discovered settings files m task names) (hwell : files.WellNamed)
    (hunbroken : files.NamesHave (¬ Path.IsBroken ·)) (hdot : Path.Matcher.dotfiles ∉ ignores)
    (hread : Path.Matcher.read root includes ignores true = .ok m) :
    ∀ n ∈ names, ¬ Path.IsDotted n := by
  obtain ⟨e, he, -⟩ := h.entry
  have hnames : ∀ n ∈ names, Path.IsName n := fun n hn =>
    h.isName hwell n (List.mem_append_right _ hn)
  exact (Path.Matcher.dotsHidden_of_accepts hdot hread hnames h.notIgnored).not_isDotted
    fun n hn => hunbroken _ _ he n (List.mem_append_right _ hn)

/-- **No path is discovered twice.** -/
theorem nodup_tasks (hwell : files.WellNamed) : ((tasks settings files m).map (·.path)).Nodup := by
  have hfound : ((files.namesBelow (isEntered m) m.root).filter (isCandidate settings m)).Nodup :=
    (FileTree.nodup_namesBelow hwell).filter _
  rw [tasks, List.map_map, (List.mergeSort_perm _ _).map _ |>.nodup_iff, List.map_map]
  refine List.Nodup.map_on (fun names hnames names' hnames' heq => ?_) hfound
  have isName : ∀ names ∈ (files.namesBelow (isEntered m) m.root).filter (isCandidate settings m),
      ∀ n ∈ m.root ++ names, Path.IsName n := fun names hnames => by
    obtain ⟨⟨e, he, -⟩, -⟩ := FileTree.found_of_mem_namesBelow hwell (List.mem_filter.1 hnames).1
    exact hwell.isName he
  exact List.append_cancel_left (Path.absolute_inj (isName _ hnames) (isName _ hnames') heq)

end

end ScriptScrub.Batch
