import ScriptScrub.Proofs.Batch.Discovery
import ScriptScrub.Proofs.Batch.Processing
import ScriptScrub.Script.Parse

/-!
# What a run leaves alone

Processing a file changes no file but the one that its path leads to, and that one only if it is not
excluded (`Processed.keeps`); so a run changes no file that none of the discovered paths leads to
(`keeps_runHolding`). A file outside the root, an ignored one and an excluded one are not discovered
for a rewrite, so they are left alone unless a discovered link leads to one of them
(`protected_unchanged`). Where such a link is, the file behind it is rewritten
(`protected_file_rewritten`).
-/

namespace ScriptScrub.Batch

open Config (BatchSettings)

/-- Nobody else changes files during a run. -/
def Runner.Undisturbed (r : Runner) : Prop := ∀ path files, r.meanwhile path files = files

/-- Only files that satisfy `P` may have another content in the second tree, and nothing else may
differ. -/
structure Keeps (P : List String → Prop) (files after : FileTree) : Prop where
  alike : files.Alike after
  content : ∀ x, ¬ P x → after.content? x = files.content? x

/-- Nothing is changed in no step. -/
theorem Keeps.refl (P : List String → Prop) (files : FileTree) : Keeps P files files :=
  ⟨.refl _, fun _ _ => rfl⟩

/-- What two steps change. -/
theorem Keeps.trans {P : List String → Prop} {files between after : FileTree}
    (h : Keeps P files between) (h' : Keeps P between after) : Keeps P files after :=
  ⟨h.alike.trans h'.alike, fun x hx => (h'.content x hx).trans (h.content x hx)⟩

/-- The path of a file that is not excluded leads to the place `x`. -/
def Targets (files : FileTree) (here : List String) (task : Task) (x : List String) : Prop :=
  task.excluded = false ∧ files.locate here task.path = .ok x

section
variable {r : Runner} {files after : FileTree} {here : List String}

/-- **Processing a file** changes at most the file that its path leads to. -/
theorem Processed.keeps (hr : r.Undisturbed) {task : Task} {outcome : Outcome}
    (h : Processed r files here task after outcome) :
    Keeps (Targets files here task) files after := by
  cases h with
  | skipped _ => exact .refl _ _
  | failed _ ha _ =>
      rw [hr, or_self] at ha
      rw [ha]
      exact .refl _ _
  | kept _ =>
      rw [hr]
      exact .refl _ _
  | written hx _ hw =>
      rw [hr, Runner.write] at hw
      split at hw
      · cases hw
      · obtain ⟨place, old, hplace, hold, rfl⟩ := FileTree.write_eq_ok_iff.1 hw
        refine ⟨FileTree.alike_put hold, fun x hx' => ?_⟩
        rw [FileTree.content?_put hold, if_neg]
        rintro rfl
        exact hx' ⟨hx, hplace⟩

/-- **Processing files one after the other** changes at most the files that their paths lead to. -/
theorem keeps_processAll (hr : r.Undisturbed) (here : List String) (tally : Tally)
    (tasks : List Task) :
    Keeps (fun x => ∃ task ∈ tasks, Targets tally.files here task x) tally.files
      (r.processAll here tally tasks).1.files := by
  induction tasks generalizing tally with
  | nil => exact .refl _ _
  | cons task tasks ih =>
      rw [Runner.processAll]
      split
      · exact .refl _ _
      · next done outcome hdone =>
        have hstep := (processed_of_process hdone).keeps hr
        have hrest := ih (tally.add done outcome)
        refine Keeps.trans ⟨hstep.alike, fun x hx => hstep.content x fun ht => hx ⟨_, .head _, ht⟩⟩
          ⟨hrest.alike, fun x hx => hrest.content x ?_⟩
        -- The paths lead to the same places as before the first file was processed.
        rintro ⟨other, hother, hexcluded, hplace⟩
        exact hx ⟨other, .tail _ hother, hexcluded, (hstep.alike.locate _ _).symm.trans hplace⟩

/-- **A run** changes at most the files that the discovered paths lead to. -/
theorem keeps_runHolding (hr : r.Undisturbed) (held : List Outcome) (files : FileTree)
    (here : List String) (root : String) :
    Keeps (fun x => ∃ place tasks, r.discover files here root = .ok (place, tasks) ∧
      ∃ task ∈ tasks, Targets files here task x)
      files (r.runHolding held files here root).files := by
  obtain ⟨hroot, place, tasks, hdiscover⟩ | ⟨e, hended⟩ := discovers_or_ends r files here root
  · have hkeeps := keeps_processAll hr here (r.start files place tasks) tasks
    rw [(runHolding_of_discover held hroot hdiscover).1]
    exact ⟨hkeeps.alike, fun x hx => hkeeps.content x fun ht => hx ⟨place, tasks, hdiscover, ht⟩⟩
  · rw [hended]
    exact .refl _ _

end

/-- A file that a batch is not to rewrite: it lies outside the root, or it or a folder on the way to
it is ignored, or it is excluded. -/
def IsProtected (settings : BatchSettings) (m : Path.Matcher) (x : List String) : Prop :=
  (¬ m.root <+: x) ∨
  (∃ names, x = m.root ++ names ∧ (m.isIgnored (Path.relative names) false = true ∨
    ∃ q, q <+: names ∧ q ≠ [] ∧ q ≠ names ∧ m.isIgnored (Path.relative q) true = true)) ∨
  isExcluded settings (Path.absolute x) = true

/-- A discovered file that is not excluded is not protected. -/
theorem Discovered.not_isProtected {settings : BatchSettings} {files : FileTree} {m : Path.Matcher}
    {task : Task} {names : List String} (h : Discovered settings files m task names)
    (hx : task.excluded = false) : ¬ IsProtected settings m (m.root ++ names) := by
  rintro (houtside | ⟨names', heq, hignored | ⟨q, hq, hnil, hne, hignored⟩⟩ | hexcluded)
  · exact houtside (List.prefix_append _ _)
  · rw [← List.append_cancel_left heq, h.notIgnored] at hignored
    cases hignored
  · cases List.append_cancel_left heq
    rw [h.entered q hq hnil hne] at hignored
    cases hignored
  · rw [← h.path, ← h.excluded, hx] at hexcluded
    cases hexcluded

/-- The path of a file was discovered as a symbolic link. -/
def IsLinked (files : FileTree) (task : Task) : Prop :=
  ∃ place target, task.path = Path.absolute place ∧ files.get? place = some (.link target)

/-- A discovered file that is no link is not excluded and not protected if its path leads to it. -/
theorem not_isProtected_of_targets {settings : BatchSettings} {files : FileTree}
    (hwell : files.WellNamed) {m : Path.Matcher} {here x : List String} {task : Task}
    (htask : task ∈ tasks settings files m) (hx : Targets files here task x)
    (hlink : ¬ IsLinked files task) : ¬ IsProtected settings m x := by
  obtain ⟨hexcluded, hplace⟩ := hx
  obtain ⟨names, hfound⟩ := discovered_of_mem_tasks hwell htask
  obtain ⟨e, he, -⟩ := hfound.entry
  have hshape : ∀ target, e.shape ≠ .link target := by
    intro target hshape
    cases e with
    | file _ | folder _ => cases hshape
    | link target => exact hlink ⟨_, target, hfound.path, he⟩
  have hown : files.locate here task.path = .ok (m.root ++ names) := by
    rw [hfound.path]
    exact FileTree.locate_absolute hwell he hshape here
  rw [hplace] at hown
  cases hown
  exact hfound.not_isProtected hexcluded

/-- **Protected files are left alone** by a run: a file outside the root, an ignored one and an
excluded one have the same content before and after it, unless a discovered link that is not
excluded leads to the file. -/
theorem protected_unchanged {r : Runner} (hr : r.Undisturbed) {files : FileTree}
    (hwell : files.WellNamed) {here : List String} {root : String} {x : List String}
    (hprotected : ∀ place m, files.resolve here root = .ok place →
      matcher r.settings place = .ok m → IsProtected r.settings m x)
    (hlink : ∀ place tasks, r.discover files here root = .ok (place, tasks) →
      ∀ task ∈ tasks, IsLinked files task → ¬ Targets files here task x)
    (held : List Outcome) :
    (r.runHolding held files here root).files.content? x = files.content? x := by
  refine (keeps_runHolding hr held files here root).content x ?_
  rintro ⟨place, found, hdiscover, task, htask, hx⟩
  obtain ⟨m, hplace, hm, rfl⟩ := discover_eq_ok_iff.1 hdiscover
  have hnolink : ¬ IsLinked files task := fun h => hlink place _ hdiscover task htask h hx
  exact not_isProtected_of_targets hwell htask hx hnolink (hprotected place m hplace hm)

/-- A runner with the usual settings. -/
def usualRunner : Runner := { grammar := Script.grammar }

/-- Where the usual runner finds one script below the root, this is what it discovers. -/
theorem discover_usualRunner : ∃ m, matcher usualRunner.settings [] = .ok m ∧ m.root = [] ∧
    m.isIgnored (Path.relative ["node_modules"]) true = true ∧
    ∀ files : FileTree, files.resolve [] "/" = .ok [] →
      files.namesBelow (isEntered m) [] = [["a.js"]] →
      usualRunner.discover files [] "/" = .ok ([], [⟨"/a.js", false⟩]) := by
  obtain ⟨m, hm, hroot, hignored, hfile⟩ : ∃ m, matcher usualRunner.settings [] = .ok m ∧
      m.root = [] ∧ m.isIgnored (Path.relative ["node_modules"]) true = true ∧
      isCandidate usualRunner.settings m ["a.js"] = true := by
    have hall : ((matcher usualRunner.settings []).toOption.any fun m => m.root = [] ∧
        m.isIgnored (Path.relative ["node_modules"]) true = true ∧
        isCandidate usualRunner.settings m ["a.js"] = true) = true := by decide +kernel
    cases hm : matcher usualRunner.settings [] with
    | error e =>
        rw [hm] at hall
        cases hall
    | ok m =>
        rw [hm] at hall
        exact ⟨m, rfl, by simpa [Except.toOption] using hall⟩
  refine ⟨m, hm, hroot, hignored, fun files hplace hfound => ?_⟩
  refine discover_eq_ok_iff.2 ⟨m, hplace, hm, ?_⟩
  rw [tasks, hroot, hfound, List.filter_cons_of_pos hfile, List.filter_nil]
  simp only [List.map_cons, List.map_nil, List.mergeSort_singleton, List.nil_append]
  decide +kernel

/-- The entry point of a program, which is excluded, and a module beside it. -/
def entryPoint : FileTree :=
  ⟨[("main.js", .file (Text.encode "f//")), ("a.js", .file (Text.encode "f//"))]⟩

/-- The entry point is left alone. -/
theorem protected_unchanged_entryPoint :
    entryPoint.content? ["main.js"] = some (Text.encode "f//") ∧
    (usualRunner.runHolding [] entryPoint [] "/").files.content? ["main.js"] =
      entryPoint.content? ["main.js"] := by
  have hexcluded : isExcluded usualRunner.settings (Path.absolute ["main.js"]) = true := by
    decide +kernel
  have hfree : entryPoint.LinkFree := by decide +kernel
  refine ⟨rfl, protected_unchanged (fun _ _ => rfl) (by decide +kernel)
    (fun _ _ _ _ => .inr (.inr hexcluded)) (fun _ _ _ _ _ hlink _ => ?_) []⟩
  obtain ⟨place, target, -, hget⟩ := hlink
  refine hfree.shape?_ne place target ?_
  rw [FileTree.shape?, hget]
  rfl

/-! ## A link to a protected file -/

/-- A module in an ignored folder, and a link to it. -/
def linkedFiles : FileTree :=
  ⟨[("a.js", .link "node_modules/m.js"),
    ("node_modules", .folder [("m.js", .file (Text.encode "f//"))])]⟩

/-- The link leads to the module. -/
theorem locate_linkedFiles : linkedFiles.locate [] "/a.js" = .ok ["node_modules", "m.js"] := by
  have hpath : Path.parts "/a.js" = ["a.js"] := by decide +kernel
  have htarget : Path.parts "node_modules/m.js" = ["node_modules", "m.js"] := by decide +kernel
  have hrelative : Path.isAbsolute "node_modules/m.js" = false := by decide +kernel
  have hlink : linkedFiles.shape? ([] ++ ["a.js"]) = some (.link "node_modules/m.js") := by
    decide +kernel
  rw [FileTree.locate, if_pos (by decide +kernel), hpath, FileTree.linkLimit,
    FileTree.walkTo_cons, if_pos (by decide +kernel), if_neg (by decide +kernel), hlink]
  simp only [hrelative, htarget, List.append_nil, Bool.false_eq_true, if_false]
  exact FileTree.walkTo_of_get? (e := .file (Text.encode "f//")) (by decide +kernel) rfl nofun

/-- The link is all that is discovered, and the folder of the module is ignored. -/
theorem discover_linkedFiles : ∃ m, linkedFiles.resolve [] "/" = .ok [] ∧
    matcher usualRunner.settings [] = .ok m ∧ m.root = [] ∧
    m.isIgnored (Path.relative ["node_modules"]) true = true ∧
    usualRunner.discover linkedFiles [] "/" = .ok ([], [⟨"/a.js", false⟩]) := by
  obtain ⟨m, hm, hroot, hignored, hdiscover⟩ := discover_usualRunner
  have hplace := linkedFiles.resolve_root []
  refine ⟨m, hplace, hm, hroot, hignored, hdiscover linkedFiles hplace ?_⟩
  have hleads : linkedFiles.leadsToFolder ["a.js"] = false := by
    have hpath : Path.absolute ["a.js"] = "/a.js" := by decide +kernel
    rw [FileTree.leadsToFolder, FileTree.entryAt, hpath, locate_linkedFiles]
    rfl
  simp [FileTree.namesBelow, FileTree.get?, FileTree.root, Entry.get?, linkedFiles,
    Entry.namesAmong, Entry.namesAt, Entry.children, isEntered, hignored]
  exact hleads

/-- **A protected file is rewritten** where a link to it is discovered: the module is in an ignored
folder, and its content is another one after the run. -/
theorem protected_file_rewritten :
    usualRunner.Undisturbed ∧ linkedFiles.WellNamed ∧
    (∃ m, linkedFiles.resolve [] "/" = .ok [] ∧ matcher usualRunner.settings [] = .ok m ∧
      IsProtected usualRunner.settings m ["node_modules", "m.js"]) ∧
    linkedFiles.content? ["node_modules", "m.js"] = some (Text.encode "f//") ∧
    (usualRunner.runHolding [] linkedFiles [] "/").files.content? ["node_modules", "m.js"] =
      some (Text.encode "f") := by
  obtain ⟨m, hplace, hm, hroot, hignored, hdiscover⟩ := discover_linkedFiles
  have hprotected : IsProtected usualRunner.settings m ["node_modules", "m.js"] := by
    refine .inr (.inl ⟨["node_modules", "m.js"], by rw [hroot, List.nil_append],
      .inr ⟨["node_modules"], ⟨["m.js"], rfl⟩, by simp, by simp, hignored⟩⟩)
  have hfile : linkedFiles.content? ["node_modules", "m.js"] = some (Text.encode "f//") := rfl
  refine ⟨fun _ _ => rfl, by decide +kernel, ⟨m, hplace, hm, hprotected⟩, hfile, ?_⟩
  have hread : linkedFiles.read [] "/a.js" = .ok (Text.encode "f//") := by
    rw [FileTree.read, FileTree.entryAt, locate_linkedFiles]
    rfl
  have hdecoded : Text.decode? (Text.encode "f//") = some "f//" := by decide +kernel
  have hsanitized : Sanitizer.sanitizeWith Script.grammar Script.grammar {} [102, 47, 47] "/a.js" =
      .ok (.ok ⟨"f", 0, 1⟩) := by decide +kernel
  have hwritten : linkedFiles.write [] "/a.js" (Text.encode "f") =
      .ok (linkedFiles.put ["node_modules", "m.js"] (.file (Text.encode "f"))) :=
    FileTree.write_eq_ok_iff.2 ⟨_, Text.encode "f//", locate_linkedFiles, rfl, rfl⟩
  have hprocessed : usualRunner.process linkedFiles [] ⟨"/a.js", false⟩ =
      .ok (⟨linkedFiles.put ["node_modules", "m.js"] (.file (Text.encode "f")),
        [.processed "/a.js" 0 1]⟩, .processed "/a.js" true) := by
    simp [usualRunner, Runner.process, Runner.read, Runner.rewrite, Runner.write, hread, hdecoded,
      hsanitized, hwritten]
  have hleads := linkedFiles.leads_root []
  have hafter : (usualRunner.runHolding [] linkedFiles [] "/").files =
      linkedFiles.put ["node_modules", "m.js"] (.file (Text.encode "f")) := by
    simp [Runner.runHolding, hleads, hdiscover, Runner.processAll, Runner.start, hprocessed,
      Tally.add]
  rw [hafter, FileTree.content?_put (FileTree.content?_eq_some.1 hfile), if_pos rfl]

end ScriptScrub.Batch
