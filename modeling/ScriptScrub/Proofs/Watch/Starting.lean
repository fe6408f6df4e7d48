import ScriptScrub.Proofs.FileTree.Walk
import ScriptScrub.Proofs.FileTree.Way
import ScriptScrub.Proofs.Path.Confined
import ScriptScrub.Proofs.Watch.Threads

/-!
# Starting to watch

The scan at the start resolves every name that it comes to, wanted or not. A file is where it is,
and a link that leads somewhere is resolved to this place, so only a link that leads back to itself
ends the scan (`Observer.exists_meetsLoop`), and with it the start. If the scan comes to no such
link it is over at some point, and the start tells so, whether the system reports changes or not
(`start_reaches_ready`). One link keeps it from telling so, also if nobody watches the link
(`start_ends_at_loop`).
-/

namespace ScriptScrub

namespace FileTree

variable {files : FileTree} {place : List String}

/-- What is no link is resolved to where it is. -/
theorem resolve_of_get? (hwell : files.WellNamed) {e : Entry} (he : files.get? place = some e)
    (hlink : ∀ target, e.shape ≠ .link target) (base : List String) :
    files.resolve base (Path.absolute place) = .ok place :=
  resolve_of_locate (locate_absolute hwell he hlink base)

/-- A link that is not resolved does not lead to a folder. -/
theorem leadsToFolder_eq_false {l : LinkLoop}
    (h : files.resolve [] (Path.absolute place) = .error l) :
    files.leadsToFolder place = false := by
  rw [leadsToFolder]
  split
  · next e he =>
    have hleads : files.leads [] (Path.absolute place) = true := by
      rw [leads, he]
      rfl
    obtain ⟨reached, hreached⟩ := exists_resolve_of_leads hleads
    rw [hreached] at h
    cases h
  · rfl

/-- What is not resolved comes to a place from which a look-up meets too many links. -/
theorem walkTo_of_resolve {base : List String} {path : String} {l : LinkLoop}
    (h : files.resolve base path = .error l) :
    files.walkTo linkLimit [] l.place = .error .tooManyLinks := by
  rw [resolve] at h
  split at h
  · cases h
  · next met _ =>
    dsimp only at h
    split at h
    · next htoo =>
      cases h
      exact htoo
    · cases h

end FileTree

/-- A matcher fails where the path is not resolved. -/
theorem Path.Matcher.accepted?_eq_error_iff {m : Path.Matcher} {files : FileTree} {path : String}
    {isDirectory : Bool} {l : LinkLoop} :
    m.accepted? files path isDirectory = .error l ↔
      Path.IsText path ∧ files.resolve m.root path = .error l := by
  by_cases htext : Path.IsText path
  · rw [accepted?, relative, if_neg (by simpa [Path.IsText] using htext), and_iff_right htext]
    cases files.resolve m.root path <;> simp [bind, Except.bind, pure, Except.pure]
  · rw [accepted?, relative, if_pos (by simpa [Path.IsText] using htext)]
    simp [htext, bind, Except.bind, pure, Except.pure]

namespace Watch

/-- The scan comes to a link that leads back to itself: the link is below the root, no directory on
the way to it is ignored, and following it comes to a loop. -/
structure Observer.MeetsLoop (o : Observer) (files : FileTree) (names : List String)
    (l : LinkLoop) : Prop where
  below : names ≠ []
  link : ∃ target, files.get? (o.matcher.root ++ names) = some (.link target)
  reached : o.matcher.Reaches names
  isText : Path.IsText (Path.absolute (o.matcher.root ++ names))
  loops : files.resolve [] (Path.absolute (o.matcher.root ++ names)) = .error l

/-- The event of a system that refuses to report changes. -/
def Reporter.refused (r : Reporter) : List Event :=
  (r.refusal.map fun message => { kind := .error, message := some message }).toList

section
variable {files : FileTree} {o : Observer}

/-- A name is one of those that the scan comes to, and cannot be resolved, exactly if it is a link
that leads back to itself. -/
theorem Observer.meetsLoop_iff (hwell : files.WellNamed) {names : List String} {l : LinkLoop} :
    o.MeetsLoop files names l ↔
      names ∈ files.namesBelow (fun names => o.matcher.accepts (Path.relative names) true)
        o.matcher.root ∧
      o.matcher.accepted? files (Path.absolute (o.matcher.root ++ names)) false = .error l := by
  have hbase : files.resolve o.matcher.root (Path.absolute (o.matcher.root ++ names)) =
      files.resolve [] (Path.absolute (o.matcher.root ++ names)) := by
    simp only [FileTree.resolve, Path.isAbsolute_absolute, if_true]
  rw [FileTree.mem_namesBelow_iff hwell, Path.Matcher.accepted?_eq_error_iff, hbase]
  constructor
  · rintro ⟨hbelow, ⟨target, hlink⟩, hreached, htext, hloops⟩
    have hnames : ∀ n ∈ names, Path.IsName n := fun n hn =>
      hwell.isName hlink n (List.mem_append_right _ hn)
    refine ⟨⟨hbelow, ⟨_, hlink, ?_⟩, (Path.Matcher.reaches_iff hnames).1 hreached⟩, htext, hloops⟩
    rw [FileTree.leadsToFolder_eq_false hloops]
    rfl
  · rintro ⟨⟨hbelow, ⟨e, he, -⟩, hentered⟩, htext, hloops⟩
    have hnames : ∀ n ∈ names, Path.IsName n := fun n hn =>
      hwell.isName he n (List.mem_append_right _ hn)
    refine ⟨hbelow, ?_, (Path.Matcher.reaches_iff hnames).2 hentered, htext, hloops⟩
    -- Anything but a link would be resolved to its own place.
    cases e with
    | link target => exact ⟨target, he⟩
    | file | folder =>
        rw [FileTree.resolve_of_get? hwell he nofun] at hloops
        cases hloops

/-- **The scan fails** by a link that leads back to itself. -/
theorem Observer.exists_meetsLoop (hwell : files.WellNamed) {l : LinkLoop}
    (h : o.initialScan files = .error l) : ∃ names, o.MeetsLoop files names l := by
  have hseen : (files.namesBelow (fun names => o.matcher.accepts (Path.relative names) true)
      o.matcher.root).mapM (fun names => o.matcher.accepted? files
        (Path.absolute (o.matcher.root ++ names)) false) = .error l := by
    rw [initialScan] at h
    generalize List.mapM (m := Except LinkLoop) _ _ = seen at h ⊢
    cases seen <;> cases h
    rfl
  obtain ⟨names, hnames, hloop⟩ := exists_of_mapM_error hseen
  exact ⟨names, (meetsLoop_iff hwell).2 ⟨hnames, hloop⟩⟩

/-- A scan that comes to its end has come to no such link. -/
theorem Observer.not_meetsLoop (hwell : files.WellNamed) {paths : List String}
    (h : o.initialScan files = .ok paths) (names : List String) (l : LinkLoop) :
    ¬ o.MeetsLoop files names l := by
  rw [meetsLoop_iff hwell]
  rintro ⟨hnames, hloop⟩
  obtain ⟨seen, hseen, -⟩ := bind_eq_ok.1 h
  obtain ⟨p, hp⟩ := exists_mapM_iff.1 ⟨seen, hseen⟩ names hnames
  rw [hloop] at hp
  cases hp

/-- What a scan finds is in ascending order. -/
theorem Observer.pairwise_initialScan {paths : List String} (h : o.initialScan files = .ok paths) :
    paths.Pairwise (· ≤ ·) := by
  obtain ⟨seen, -, h⟩ := bind_eq_ok.1 h
  cases h
  exact Path.pairwise_mergeSort _

/-- What a start tells, and what it fails by, is what the scan comes to. -/
theorem Observer.start_eq_scan (o : Observer) (files : FileTree) (r : Reporter) :
    (o.start files r).2.2.events =
      r.refused ++ (match o.initialScan files with
        | .ok paths => scanEvents paths
        | .error _ => []) ∧
      (o.start files r).2.2.fault =
        match o.initialScan files with
        | .ok _ => none
        | .error l => some l := by
  refine ⟨(o.start_eq files r).1, ?_⟩
  have hscan : ∀ running : Bool,
      ({ o with listening := true, running } : Observer).initialScan files =
        o.initialScan files := fun _ => rfl
  unfold start
  dsimp only
  rw [hscan]
  cases o.initialScan files <;> cases r.refusal <;> rfl

end

/-- **A start tells that the scan is over**, and this is the last that it tells, exactly if the scan
comes to no link that leads back to itself. Before that it tells that the system refuses to report
changes, if so, and then of each path that the scan finds, in ascending order. If the scan comes to
such a link the start fails by it, and tells nothing but the refusal. No other link is in the way:
there is none such where no look-up meets too many links. -/
theorem start_reaches_ready {files : FileTree} (hwell : files.WellNamed) (o : Observer)
    (r : Reporter) :
    ((o.start files r).2.2.fault = none ↔ ∀ names l, ¬ o.MeetsLoop files names l) ∧
    ((o.start files r).2.2.fault = none → ∃ paths, o.initialScan files = .ok paths ∧
      paths.Pairwise (· ≤ ·) ∧
      (o.start files r).2.2.events =
        r.refused ++ paths.map (fun p => { kind := .add, path := some p }) ++
          [{ kind := .ready }]) ∧
    (∀ l, (o.start files r).2.2.fault = some l →
      (∃ names, o.MeetsLoop files names l) ∧ (o.start files r).2.2.events = r.refused) ∧
    ((∀ place, files.walkTo FileTree.linkLimit [] place ≠ .error .tooManyLinks) →
      ∀ names l, ¬ o.MeetsLoop files names l) := by
  obtain ⟨hevents, hfault⟩ := o.start_eq_scan files r
  have hlooks : (∀ place, files.walkTo FileTree.linkLimit [] place ≠ .error .tooManyLinks) →
      ∀ names l, ¬ o.MeetsLoop files names l :=
    fun hall names l hmeets => hall _ (FileTree.walkTo_of_resolve hmeets.loops)
  rw [hevents, hfault]
  cases hscan : o.initialScan files with
  | error l =>
      obtain ⟨names, hmeets⟩ := Observer.exists_meetsLoop hwell hscan
      refine ⟨iff_of_false nofun fun hnone => hnone names l hmeets, nofun, ?_, hlooks⟩
      rintro _ ⟨⟩
      exact ⟨⟨names, hmeets⟩, List.append_nil _⟩
  | ok paths =>
      refine ⟨iff_of_true rfl (Observer.not_meetsLoop hwell hscan), fun _ => ⟨paths, rfl,
        Observer.pairwise_initialScan hscan, ?_⟩, nofun, hlooks⟩
      exact (List.append_assoc _ _ _).symm

/-- A project with a script, a link that leads nowhere and one that leads out of the project. -/
def linkedProject : FileTree :=
  ⟨[("p", .folder [("a.js", .file []), ("gone.js", .link "missing.js"), ("out.js", .link "/b.js")]),
    ("b.js", .file [])]⟩

/-- An observer of everything in the project. -/
def projectObserver : Observer := { matcher := ⟨["p"], [], [], none, none⟩ }

/-- A system that reports no changes. -/
def refusingReporter : Reporter := { refusal := some "inotify limit reached" }

/-- Neither link leads to a folder, so both are found. -/
theorem namesBelow_linkedProject (enter : List String → Bool) :
    linkedProject.namesBelow enter ["p"] = [["a.js"], ["gone.js"], ["out.js"]] := by
  have hpath : Path.isAbsolute (Path.absolute ["p", "gone.js"]) = true ∧
      Path.parts (Path.absolute ["p", "gone.js"]) = ["p", "gone.js"] ∧
      Path.isAbsolute (Path.absolute ["p", "out.js"]) = true ∧
      Path.parts (Path.absolute ["p", "out.js"]) = ["p", "out.js"] ∧
      Path.isAbsolute "missing.js" = false ∧ Path.parts "missing.js" = ["missing.js"] ∧
      Path.isAbsolute "/b.js" = true ∧ Path.parts "/b.js" = ["b.js"] := by decide +kernel
  have hplaces : linkedProject.locate [] (Path.absolute ["p", "gone.js"]) = .error .missing ∧
      linkedProject.locate [] (Path.absolute ["p", "out.js"]) = .ok ["b.js"] := by
    simp [FileTree.locate, FileTree.walkTo_cons, FileTree.walkTo, FileTree.linkLimit,
      FileTree.shape?, hpath, linkedProject, FileTree.get?, FileTree.root, Entry.get?,
      Entry.named?, Entry.children, Entry.shape]
  have hgone := FileTree.leadsToFolder_of_locate_error hplaces.1
  have hout : linkedProject.leadsToFolder ["p", "out.js"] = false := by
    rw [FileTree.leadsToFolder, FileTree.entryAt, hplaces.2]
    rfl
  change [["a.js"]] ++ ((if linkedProject.leadsToFolder ["p", "gone.js"] then [] else
    [["gone.js"]]) ++ ((if linkedProject.leadsToFolder ["p", "out.js"] then [] else
      [["out.js"]]) ++ [])) = _
  rw [hgone, hout]
  rfl

/-- The first link has a name in the project, though nothing is there, and the other one has not. -/
theorem resolve_linkedProject :
    linkedProject.resolve ["p"] "/p/a.js" = .ok ["p", "a.js"] ∧
    linkedProject.resolve ["p"] "/p/gone.js" = .ok ["p", "missing.js"] ∧
    linkedProject.resolve ["p"] "/p/out.js" = .ok ["b.js"] := by
  have hpath : Path.isAbsolute "/p/a.js" = true ∧ Path.parts "/p/a.js" = ["p", "a.js"] ∧
      Path.isAbsolute "/p/gone.js" = true ∧ Path.parts "/p/gone.js" = ["p", "gone.js"] ∧
      Path.isAbsolute "/p/out.js" = true ∧ Path.parts "/p/out.js" = ["p", "out.js"] ∧
      Path.isAbsolute "missing.js" = false ∧ Path.parts "missing.js" = ["missing.js"] ∧
      Path.isAbsolute "/b.js" = true ∧ Path.parts "/b.js" = ["b.js"] := by decide +kernel
  simp [FileTree.resolve, FileTree.resolveFrom, hpath, linkedProject, FileTree.get?,
    FileTree.root, Entry.get?, Entry.named?, Entry.children, Entry.linkCount, Entry.linkCountAll]

/-- The scan finds the script, and the name to which the first link leads. -/
theorem initialScan_linkedProject :
    projectObserver.initialScan linkedProject = .ok ["a.js", "missing.js"] := by
  obtain ⟨ha, hgone, hout⟩ := resolve_linkedProject
  have hpath : Path.absolute ["p", "a.js"] = "/p/a.js" ∧
      Path.absolute ["p", "gone.js"] = "/p/gone.js" ∧
      Path.absolute ["p", "out.js"] = "/p/out.js" ∧ Path.relative ["a.js"] = "a.js" ∧
      Path.relative ["missing.js"] = "missing.js" := by decide +kernel
  have hsorted : (["a.js", "missing.js"].mergeSort fun a b => decide (a ≤ b)) =
      ["a.js", "missing.js"] := List.mergeSort_of_pairwise (by decide +kernel)
  simp [Observer.initialScan, projectObserver, namesBelow_linkedProject, Path.Matcher.accepted?,
    Path.Matcher.relative, Path.Matcher.below?, Path.Matcher.accepts, Path.Matcher.isIgnored,
    Path.Matcher.isIncluded, Option.filter, ha, hgone, hout, hpath, hsorted, pure, Except.pure,
    bind, Except.bind]

/-- The refusal of the system and the two other links are not in the way. -/
theorem start_reaches_ready_refused :
    linkedProject.WellNamed ∧
      (∀ names l, ¬ projectObserver.MeetsLoop linkedProject names l) ∧
      (projectObserver.start linkedProject refusingReporter).2.2.events =
        [{ kind := .error, message := some "inotify limit reached" },
          { kind := .add, path := some "a.js" }, { kind := .add, path := some "missing.js" },
          { kind := .ready }] := by
  have hwell : linkedProject.WellNamed := by decide +kernel
  obtain ⟨hready, htold, -⟩ := start_reaches_ready hwell projectObserver refusingReporter
  have hfault : (projectObserver.start linkedProject refusingReporter).2.2.fault = none := by
    rw [(projectObserver.start_eq_scan linkedProject refusingReporter).2,
      initialScan_linkedProject]
  obtain ⟨paths, hpaths, -, hevents⟩ := htold hfault
  rw [initialScan_linkedProject] at hpaths
  cases hpaths
  exact ⟨hwell, hready.1 hfault, hevents⟩

/-- A link that leads to itself, and nothing else. -/
def selfLinked : FileTree := ⟨[("l", .link "l")]⟩

/-- However many links may be followed, it leads back to itself. -/
theorem walkTo_selfLinked (links : Nat) :
    selfLinked.walkTo links [] ["l"] = .error .tooManyLinks := by
  have htarget : Path.parts "l" = ["l"] := by decide +kernel
  induction links with
  | zero =>
      rw [FileTree.walkTo_cons]
      rfl
  | succ links ih =>
      rw [FileTree.walkTo_cons]
      change selfLinked.walkTo links (if Path.isAbsolute "l" then [] else [])
        (Path.parts "l" ++ []) = _
      rw [ite_self, htarget]
      exact ih

/-- It leads to no folder. -/
theorem leadsToFolder_selfLinked : selfLinked.leadsToFolder ["l"] = false := by
  have hpath : Path.isAbsolute (Path.absolute ["l"]) = true ∧
      Path.parts (Path.absolute ["l"]) = ["l"] := by decide +kernel
  refine FileTree.leadsToFolder_of_locate_error (e := .tooManyLinks) ?_
  rw [FileTree.locate, if_pos hpath.1, hpath.2, walkTo_selfLinked]

/-- It has no name but by way of itself. -/
theorem resolve_selfLinked : selfLinked.resolve [] (Path.absolute ["l"]) = .error ⟨["l"]⟩ := by
  have hpath : Path.isAbsolute (Path.absolute ["l"]) = true ∧
      Path.parts (Path.absolute ["l"]) = ["l"] ∧ Path.isAbsolute "l" = false ∧
      Path.parts "l" = ["l"] ∧ Path.follow [] ["l"] = ["l"] := by decide +kernel
  have hmet : selfLinked.resolveFrom selfLinked.root.linkCount [] [] ["l"] = .error ["l"] := by
    simp [FileTree.resolveFrom, hpath, selfLinked, FileTree.get?, FileTree.root, Entry.get?,
      Entry.named?, Entry.children, Entry.linkCount, Entry.linkCountAll]
  rw [FileTree.resolve, if_pos hpath.1, hpath.2.1, hmet]
  simp only [hpath, walkTo_selfLinked]

/-- **A link that leads back to itself** ends the start, though nobody watches it: that the scan is
over is never told. -/
theorem start_ends_at_loop :
    selfLinked.WellNamed ∧
      ∃ o, Observer.make [] { watchPaths := ["*.js"], ignored := [] } = .ok o ∧
        o.matcher.accepts "l" false = false ∧
        (o.start selfLinked {}).2.2.fault = some ⟨["l"]⟩ ∧
        (o.start selfLinked {}).2.2.events = [] := by
  obtain ⟨o, hmake⟩ :
    ∃ o, Observer.make [] { watchPaths := ["*.js"], ignored := [] } = .ok o := ⟨_, rfl⟩
  have hall : (Observer.make [] { watchPaths := ["*.js"], ignored := [] }).toOption.all (fun o =>
      o.matcher.root = [] ∧ o.matcher.accepts "l" false = false) = true := by decide +kernel
  rw [hmake] at hall
  obtain ⟨hroot, hunwatched⟩ := of_decide_eq_true hall
  have hscan : o.initialScan selfLinked = .error ⟨["l"]⟩ := by
    have hfound : ∀ enter, selfLinked.namesBelow enter [] = [["l"]] := fun enter =>
      FileTree.namesBelow_link enter leadsToFolder_selfLinked
    have hloop : o.matcher.accepted? selfLinked (Path.absolute ["l"]) false = .error ⟨["l"]⟩ := by
      rw [Path.Matcher.accepted?_eq_error_iff, hroot]
      exact ⟨by decide +kernel, resolve_selfLinked⟩
    simp [Observer.initialScan, hroot, hfound, hloop, bind, Except.bind]
  obtain ⟨hevents, hfault⟩ := o.start_eq_scan selfLinked {}
  rw [hscan] at hevents hfault
  exact ⟨by decide +kernel, o, hmake, hunwatched, hfault, hevents⟩

end Watch

end ScriptScrub
