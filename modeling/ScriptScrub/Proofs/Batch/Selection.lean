import Mathlib.Data.String.Basic
import ScriptScrub.Proofs.Batch.Discovery
import ScriptScrub.Proofs.Result
import ScriptScrub.Script.Parse

/-!
# What exactly is discovered

The file names below the root of a batch are those that its links lead to as well (`IsFileBelow`).
Of these a batch takes exactly the ones that have one of its extensions, are not ignored, and are
reached by folders that are not ignored and are no links (`IsSelected`, `mem_tasks_iff`). It takes
nothing else, takes nothing twice, and takes all in the order of their paths (`discover_exact`).
-/

namespace ScriptScrub

/-- Under the last of the names stands a file, or a link that does not lead to a folder, in the
folder that the others lead to from the folder at the place. They may lead there by links. -/
structure IsFileBelow (files : FileTree) (place names : List String) : Prop where
  folder : files.shape? place = some .folder
  isName : ∀ n ∈ names, Path.IsName n
  stands : ∃ way name reached e, names = way ++ [name] ∧
    files.locate [] (Path.absolute (place ++ way)) = .ok reached ∧
    files.get? (reached ++ [name]) = some e ∧
    e.isListed (files.leadsToFolder (reached ++ [name])) = true

/-- No folder on the way is a link. -/
def NoLinkOn (files : FileTree) (place names : List String) : Prop :=
  ∀ q, q <+: names → q ≠ [] → q ≠ names → ∀ target, files.shape? (place ++ q) ≠ some (.link target)

section
variable {files : FileTree} {place names : List String}

/-- There is a folder at every place on the way to a folder. -/
theorem shape?_above {q : List String} (h : files.shape? place = some .folder)
    (hq : q <+: place) : files.shape? q = some .folder := by
  obtain ⟨rest, rfl⟩ := hq
  cases rest with
  | nil => rwa [List.append_nil] at h
  | cons name rest =>
      obtain ⟨e, he, -⟩ := Option.map_eq_some_iff.1 h
      exact FileTree.shape?_of_get?_append he

/-- A folder is no link. -/
theorem ne_link_of_folder (h : files.shape? place = some .folder) (target : String) :
    files.shape? place ≠ some (.link target) := by
  simp [h]

/-- A file name stands at the end of names. -/
theorem IsFileBelow.isName_append (h : IsFileBelow files place names) (hwell : files.WellNamed) :
    ∀ n ∈ place ++ names, Path.IsName n := by
  obtain ⟨base, hbase, -⟩ := Option.map_eq_some_iff.1 h.folder
  exact List.forall_mem_append.2 ⟨hwell.isName hbase, h.isName⟩

/-- **Where no folder on the way is a link**, a file name stands for an entry at its own place. -/
theorem IsFileBelow.entry (h : IsFileBelow files place names) (hwell : files.WellNamed)
    (hlink : NoLinkOn files place names) :
    ∃ e, files.get? (place ++ names) = some e ∧
      e.isListed (files.leadsToFolder (place ++ names)) = true := by
  obtain ⟨way, name, reached, e, rfl, hreached, he, hlisted⟩ := h.stands
  have hnames : ∀ n ∈ place ++ way, Path.IsName n := fun n hn =>
    h.isName_append hwell n (by rw [← List.append_assoc]; exact List.mem_append_left _ hn)
  rw [FileTree.locate, if_pos (Path.isAbsolute_absolute _), Path.parts_absolute hnames] at hreached
  have hend := FileTree.eq_of_walkTo hreached (fun n hn => (hnames n hn).2.2.1) ?_
  · rw [hend, List.nil_append, List.append_assoc] at he hlisted
    exact ⟨e, he, hlisted⟩
  · intro q hq hne target
    rw [List.nil_append]
    rcases List.prefix_or_prefix_of_prefix hq (List.prefix_append place way) with hbefore | hafter
    · exact ne_link_of_folder (shape?_above h.folder hbefore) target
    · obtain ⟨q, rfl⟩ := hafter
      rw [List.prefix_append_right_inj] at hq
      rcases eq_or_ne q [] with rfl | hnil
      · rw [List.append_nil]
        exact ne_link_of_folder h.folder target
      · refine hlink q (hq.trans (List.prefix_append _ _)) hnil (fun heq => ?_) target
        have hlength := hq.length_le
        rw [heq, List.length_append, List.length_singleton] at hlength
        exact Nat.not_succ_le_self _ hlength

/-- **What stands at its own place** below a folder is a file name, and no folder on the way is a
link. -/
theorem isFileBelow_of_get? (hwell : files.WellNamed) (hne : names ≠ []) {e : Entry}
    (he : files.get? (place ++ names) = some e)
    (hlisted : e.isListed (files.leadsToFolder (place ++ names)) = true) :
    IsFileBelow files place names ∧ NoLinkOn files place names := by
  have hfolder : ∀ q, q <+: names → q ≠ names → files.shape? (place ++ q) = some .folder := by
    rintro q ⟨rest, rfl⟩ hproper
    cases rest with
    | nil => exact absurd (List.append_nil q).symm hproper
    | cons name rest =>
        rw [← List.append_assoc] at he
        exact FileTree.shape?_of_get?_append he
  have hisName : ∀ n ∈ names, Path.IsName n := fun n hn =>
    hwell.isName he n (List.mem_append_right _ hn)
  refine ⟨⟨?_, hisName, ?_⟩, fun q hq _ hproper target => ?_⟩
  · have hplace := hfolder [] List.nil_prefix hne.symm
    rwa [List.append_nil] at hplace
  · obtain ⟨way, name, rfl⟩ := (List.eq_nil_or_concat names).resolve_left hne
    rw [List.concat_eq_append] at he hlisted hfolder ⊢
    obtain ⟨base, hbase, hshape⟩ :=
      Option.map_eq_some_iff.1 (hfolder way (List.prefix_append _ _) (by simp))
    rw [← List.append_assoc] at he hlisted
    refine ⟨way, name, place ++ way, e, rfl, ?_, he, hlisted⟩
    exact FileTree.locate_absolute hwell hbase (fun target => by simp [hshape]) []
  · exact ne_link_of_folder (hfolder q hq hproper) target

end

namespace Batch

open Config (BatchSettings)

section
variable {settings : BatchSettings} {files : FileTree} {m : Path.Matcher} {names : List String}

/-- **A path is excluded** exactly if one of the excluded texts is the end of it. -/
theorem isExcluded_iff {path : String} :
    isExcluded settings path = true ↔ ∃ e ∈ settings.excludedFiles, e.toList <:+ path.toList := by
  rw [isExcluded, List.any_eq_true]
  refine exists_congr fun e => and_congr_right fun _ => ?_
  rw [Bool.or_eq_true, beq_iff_eq, Path.endsWith_iff]
  constructor
  · rintro (h | rfl)
    · exact h
    · exact Path.baseName_suffix path
  · exact .inl

/-- The matcher of a batch looks from its root. -/
theorem root_of_matcher {root : List String} (h : matcher settings root = .ok m) :
    m.root = root := by
  obtain ⟨included, -, h⟩ := bind_eq_ok.1 h
  obtain ⟨ignored, -, h⟩ := bind_eq_ok.1 h
  cases h
  rfl

variable (settings files m names) in
/-- The file name is one that a batch takes. -/
structure IsSelected : Prop where
  extension : ∃ e ∈ settings.extensions,
    (Text.lower e).toList <:+ (Text.lower (names.getLastD "")).toList
  notIgnored : m.isIgnored (Path.relative names) false = false
  entered : ∀ q, q <+: names → q ≠ [] → q ≠ names → m.isIgnored (Path.relative q) true = false
  noLink : NoLinkOn files m.root names

/-- A name has one of the extensions if it ends with it, whatever the case of the letters. -/
theorem hasExtension_iff {name : String} :
    hasExtension settings name = true ↔
      ∃ e ∈ settings.extensions, (Text.lower e).toList <:+ (Text.lower name).toList := by
  rw [hasExtension, List.any_eq_true]
  simp only [Path.endsWith_iff]

/-- **The files of a batch** are the file names that it takes. -/
theorem mem_tasks_iff (hwell : files.WellNamed) {task : Task} :
    task ∈ tasks settings files m ↔
      ∃ names, IsFileBelow files m.root names ∧ IsSelected settings files m names ∧
        task = ⟨Path.absolute (m.root ++ names),
          isExcluded settings (Path.absolute (m.root ++ names))⟩ := by
  have hcandidate : ∀ names, isCandidate settings m names = true ↔
      (∃ e ∈ settings.extensions,
        (Text.lower e).toList <:+ (Text.lower (names.getLastD "")).toList) ∧
        m.isIgnored (Path.relative names) false = false := fun names => by
    rw [isCandidate, Bool.and_eq_true, Bool.not_eq_true', hasExtension_iff]
  have hentered : ∀ q, isEntered m q = true ↔ m.isIgnored (Path.relative q) true = false :=
    fun q => by rw [isEntered, Bool.not_eq_true']
  simp only [tasks, List.mem_map, List.mem_mergeSort, List.mem_filter, hcandidate,
    FileTree.mem_namesBelow_iff hwell, hentered]
  constructor
  · rintro ⟨_, ⟨names, ⟨⟨hne, ⟨e, he, hlisted⟩, hway⟩, hext, hignored⟩, rfl⟩, rfl⟩
    obtain ⟨hbelow, hlink⟩ := isFileBelow_of_get? hwell hne he hlisted
    exact ⟨names, hbelow, ⟨hext, hignored, hway, hlink⟩, rfl⟩
  · rintro ⟨names, hbelow, ⟨hext, hignored, hway, hlink⟩, rfl⟩
    have hne : names ≠ [] := by
      obtain ⟨way, name, -, -, rfl, -⟩ := hbelow.stands
      simp
    exact ⟨_, ⟨names, ⟨⟨hne, hbelow.entry hwell hlink, hway⟩, hext, hignored⟩, rfl⟩, rfl⟩

/-- **The files of a batch** come in the order of their paths, none of them twice. -/
theorem pairwise_tasks (hwell : files.WellNamed) :
    ((tasks settings files m).map (·.path)).Pairwise (· < ·) := by
  have hsorted : ((tasks settings files m).map (·.path)).Pairwise (· ≤ ·) := by
    rw [tasks, List.map_map]
    change List.Pairwise _ (List.map id _)
    rw [List.map_id]
    exact Path.pairwise_mergeSort _
  exact (hsorted.and (nodup_tasks hwell)).imp fun h => lt_of_le_of_ne h.1 h.2

end

/-- **Discovery is exact** wherever the root is resolved and the globs can be read. For a file name
below the root, whatever links it is reached by, there is a file of the batch exactly if the name
has an extension of the batch, is not ignored, and no folder on the way is ignored or a link. There
is no other. They come in ascending order of their paths, each of them once, and one of them is
excluded exactly if an excluded text is the end of its path. -/
theorem discover_exact {r : Runner} {files : FileTree} {here place : List String} {root : String}
    {m : Path.Matcher} (hwell : files.WellNamed) (hplace : files.resolve here root = .ok place)
    (hm : matcher r.settings place = .ok m) :
    ∃ found, r.discover files here root = .ok (place, found) ∧
      (∀ names, IsFileBelow files place names →
        ((∃ task ∈ found, task.path = Path.absolute (place ++ names)) ↔
          IsSelected r.settings files m names)) ∧
      (∀ task ∈ found, ∃ names, IsFileBelow files place names ∧
        task.path = Path.absolute (place ++ names)) ∧
      (found.map (·.path)).Pairwise (· < ·) ∧
      ∀ task ∈ found, task.excluded = true ↔
        ∃ e ∈ r.settings.excludedFiles, e.toList <:+ task.path.toList := by
  obtain rfl := root_of_matcher hm
  refine ⟨_, discover_eq_ok_iff.2 ⟨m, hplace, hm, rfl⟩, fun names hbelow => ?_,
    fun task htask => ?_, pairwise_tasks hwell, fun task htask => ?_⟩
  · constructor
    · rintro ⟨task, htask, hpath⟩
      obtain ⟨names', hbelow', hselected, rfl⟩ := (mem_tasks_iff hwell).1 htask
      have heq := Path.absolute_inj (hbelow'.isName_append hwell) (hbelow.isName_append hwell) hpath
      rwa [← List.append_cancel_left heq]
    · intro hselected
      exact ⟨_, (mem_tasks_iff hwell).2 ⟨names, hbelow, hselected, rfl⟩, rfl⟩
  · obtain ⟨names, hbelow, -, rfl⟩ := (mem_tasks_iff hwell).1 htask
    exact ⟨names, hbelow, rfl⟩
  · obtain ⟨names, -, -, rfl⟩ := (mem_tasks_iff hwell).1 htask
    exact isExcluded_iff

/-- A runner that ignores minified scripts except one. -/
def sparingRunner : Runner where
  settings := { ignoreGlobs := ["*.min.js", "!keep.min.js"] }
  grammar := Script.grammar

/-- Two minified scripts. -/
def minifiedFiles : FileTree := ⟨[("a.min.js", .file []), ("keep.min.js", .file [])]⟩

/-- Each of the two scripts is a file name. -/
theorem isFileBelow_minifiedFiles {name : String} (h : name ∈ ["a.min.js", "keep.min.js"]) :
    IsFileBelow minifiedFiles [] [name] := by
  have hfile : minifiedFiles.get? ([] ++ [name]) = some (.file []) := by
    simp only [List.mem_cons, List.not_mem_nil, or_false] at h
    rcases h with rfl | rfl <;> rfl
  exact (isFileBelow_of_get? (by decide +kernel) (List.cons_ne_nil _ _) hfile rfl).1

/-- A minified script is not discovered, unless a negated pattern spares it. -/
theorem discover_exact_negated :
    ∃ found, sparingRunner.discover minifiedFiles [] "/" = .ok ([], found) ∧
      (∃ task ∈ found, task.path = "/keep.min.js") ∧ ¬ ∃ task ∈ found, task.path = "/a.min.js" := by
  have hmatcher : ((matcher sparingRunner.settings []).toOption.any fun m => m.root = [] ∧
      m.isIgnored (Path.relative ["a.min.js"]) false = true ∧
      m.isIgnored (Path.relative ["keep.min.js"]) false = false) = true := by decide +kernel
  have hpath : Path.absolute ["a.min.js"] = "/a.min.js" ∧
      Path.absolute ["keep.min.js"] = "/keep.min.js" := by decide +kernel
  cases hm : matcher sparingRunner.settings [] with
  | error e =>
      rw [hm] at hmatcher
      cases hmatcher
  | ok m =>
      rw [hm] at hmatcher
      obtain ⟨hroot, hignored, hkept⟩ := of_decide_eq_true hmatcher
      have hplace := minifiedFiles.resolve_root []
      have hwell : minifiedFiles.WellNamed := by decide +kernel
      obtain ⟨found, hfound, hiff, -⟩ := discover_exact (r := sparingRunner) hwell hplace hm
      have halone : ∀ q : List String, q <+: ["keep.min.js"] → q ≠ [] → q = ["keep.min.js"] := by
        intro q hq hne
        obtain ⟨rest, rfl, hrest⟩ := (List.prefix_cons_iff.1 hq).resolve_left hne
        rw [List.prefix_nil.1 hrest]
      rw [← hpath.1, ← hpath.2]
      refine ⟨found, hfound, (hiff _ (isFileBelow_minifiedFiles (by simp))).2 ⟨?_, hkept, ?_, ?_⟩,
        fun h => ?_⟩
      · exact hasExtension_iff.1 (by decide +kernel)
      · exact fun q hq hne hproper => absurd (halone q hq hne) hproper
      · exact fun q hq hne hproper => absurd (halone q hq hne) hproper
      · have hselected := (hiff _ (isFileBelow_minifiedFiles (by simp))).1 h
        rw [hselected.notIgnored] at hignored
        cases hignored

end Batch

end ScriptScrub
