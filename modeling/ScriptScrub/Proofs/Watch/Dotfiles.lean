import ScriptScrub.Proofs.Batch.Discovery
import ScriptScrub.Proofs.Path.Dotfiles
import ScriptScrub.Proofs.Watch.Tracking

/-!
# Dotfiles stay hidden

A batch, the first scan of an observer and the reports of the system ask the same matcher. If it
ignores dotfiles none of them brings a path with a name that begins with a dot, at any depth and
whatever the other ignore patterns take back, as long as there is no line break in what the path is
made of (`dotfiles_stay_hidden`). A link can bring one in where the names of the files have none
(`seen_after_line_break`).
-/

namespace ScriptScrub

open ScriptScrub.Path (IsBroken IsDotted IsName DotsHidden)

namespace Watch

section
variable {files : FileTree} {m : Path.Matcher}

/-- What a scan finds is accepted under the path of something that is there. -/
theorem Observer.exists_of_mem_initialScan {o : Observer} (hwell : files.WellNamed)
    {paths : List String} (h : o.initialScan files = .ok paths) {p : String} (hp : p ∈ paths) :
    ∃ names e, files.get? (o.matcher.root ++ names) = some e ∧
      o.matcher.accepted? files (Path.absolute (o.matcher.root ++ names)) false = .ok (some p) := by
  obtain ⟨seen, hseen, h⟩ := bind_eq_ok.1 h
  cases h
  rw [List.mem_mergeSort, List.mem_filterMap] at hp
  obtain ⟨_, hp, rfl⟩ := hp
  obtain ⟨names, hnames, haccepted⟩ := exists_of_mem_mapM hseen hp
  obtain ⟨⟨e, he, -⟩, -⟩ := FileTree.found_of_mem_namesBelow hwell hnames
  exact ⟨names, e, he, haccepted⟩

/-- The only event about a path is about what is accepted of it. -/
theorem exists_of_mem_eventAt {kind : EventKind} {path : Option String} {events : List Event}
    (h : eventAt files m kind path = .ok events) {e : Event} (he : e ∈ events) :
    ∃ text p, path = some text ∧ e.path = some p ∧
      m.accepted? files text false = .ok (some p) := by
  cases path with
  | none => cases h
  | some text =>
      rw [eventAt] at h
      split at h
      · cases h
      · next seen hseen =>
        cases h
        obtain ⟨p, hp, rfl⟩ := List.mem_map.1 he
        exact ⟨text, p, rfl, rfl, Option.mem_toList.1 hp ▸ hseen⟩

/-- **An event of a signal** is about a path that the signal names. -/
theorem Signal.exists_of_mem_events {s : Signal} {events : List Event}
    (h : s.events files m = .ok events) {e : Event} (he : e ∈ events) :
    ∃ text p, (s.source = some text ∨ s.target = some text) ∧ e.path = some p ∧
      m.accepted? files text false = .ok (some p) := by
  have atSource : ∀ {kind events}, eventAt files m kind s.source = .ok events → e ∈ events →
      ∃ text p, (s.source = some text ∨ s.target = some text) ∧ e.path = some p ∧
        m.accepted? files text false = .ok (some p) := fun h he => by
    obtain ⟨text, p, htext, hp⟩ := exists_of_mem_eventAt h he
    exact ⟨text, p, .inl htext, hp⟩
  rw [Signal.events] at h
  split at h
  · cases h
    cases he
  · cases hkind : s.kind <;> rw [hkind] at h
    case created | modified | deleted => exact atSource h he
    case moved =>
      obtain ⟨gone, hgone, h⟩ := bind_eq_ok.1 h
      obtain ⟨new, hnew, h⟩ := bind_eq_ok.1 h
      cases h
      rcases List.mem_append.1 he with he | he
      · exact atSource hgone he
      · obtain ⟨text, p, htext, hp⟩ := exists_of_mem_eventAt hnew he
        exact ⟨text, p, .inr htext, hp⟩
    case other =>
      cases h
      cases he

end

/-- **Dotfiles stay hidden** wherever they are ignored, unless their pattern was configured in
another place. In a tree without line breaks in the names of its entries, no file of a batch is
along a name that begins with a dot, whatever the other ignore patterns are. What a scan finds and
what an event is about has such a name only after one with a line break; a scan has none at all if
there are no line breaks in links, and an event if there are none in the root and in the paths of
the signal either. -/
theorem dotfiles_stay_hidden {files : FileTree} {ignores : List String} (hwell : files.WellNamed)
    (hunbroken : files.NamesHave (¬ IsBroken ·)) (hdot : Path.Matcher.dotfiles ∉ ignores) :
    (∀ {r : Batch.Runner} {here place : List String} {root : String} {found : List Batch.Task},
      r.settings.ignoreDotfiles = true → r.settings.ignoreGlobs = ignores →
      r.discover files here root = .ok (place, found) →
      ∀ task ∈ found, ∃ names, task.path = Path.absolute (place ++ names) ∧
        ∀ n ∈ names, ¬ IsDotted n) ∧
    ∀ {root includes : List String} {o : Observer},
      Path.Matcher.read root includes ignores true = .ok o.matcher →
      (∀ {paths}, o.initialScan files = .ok paths → ∀ p ∈ paths, DotsHidden (Path.segments p) ∧
        (files.TargetsHave (¬ IsBroken ·) → ∀ n ∈ Path.segments p, ¬ IsDotted n)) ∧
      ((∀ n ∈ root, IsName n) → ∀ {s : Signal} {events}, s.events files o.matcher = .ok events →
        ∀ e ∈ events, ∃ p, e.path = some p ∧ DotsHidden (Path.segments p) ∧
          (files.TargetsHave (¬ IsBroken ·) → (∀ n ∈ root, ¬ IsBroken n) →
            (∀ text, s.source = some text ∨ s.target = some text → '\n' ∉ text.toList) →
            ∀ n ∈ Path.segments p, ¬ IsDotted n)) := by
  refine ⟨fun hdotfiles hglobs hfound task htask => ?_, fun hread => ⟨?_, fun hroot => ?_⟩⟩
  · obtain ⟨m, -, hm, rfl⟩ := Batch.discover_eq_ok_iff.1 hfound
    rw [Batch.matcher, hdotfiles, hglobs] at hm
    obtain ⟨rfl, -⟩ := Path.Matcher.ignored_of_read hdot hm
    obtain ⟨names, hdiscovered⟩ := Batch.discovered_of_mem_tasks hwell htask
    exact ⟨names, hdiscovered.path, hdiscovered.not_isDotted hwell hunbroken hdot hm⟩
  · intro paths hpaths p hp
    obtain ⟨names, e, he, haccepted⟩ := Observer.exists_of_mem_initialScan hwell hpaths hp
    obtain ⟨rfl, -⟩ := Path.Matcher.ignored_of_read hdot hread
    have hisName := hwell.isName he
    have hline := hunbroken _ _ he
    have hroot := (List.forall_mem_append.1 hisName).1
    refine ⟨Path.Matcher.dotsHidden_of_accepted? hdot hread hroot haccepted, fun hlinks =>
      Path.Matcher.not_isDotted_of_accepted? hdot hread hroot (List.forall_mem_append.1 hline).1
        hlinks ?_ haccepted⟩
    rwa [Path.parts_absolute hisName]
  · intro s events hevents e he
    obtain ⟨text, p, htext, hp, haccepted⟩ := Signal.exists_of_mem_events hevents he
    refine ⟨p, hp, Path.Matcher.dotsHidden_of_accepted? hdot hread hroot haccepted,
      fun hlinks hline hsignal =>
        Path.Matcher.not_isDotted_of_accepted? hdot hread hroot hline hlinks ?_ haccepted⟩
    exact fun n hn hbroken => hsignal text htext ((Path.mem_parts hn).2 hbroken)

/-- A script, and another one in a folder with a dot in front. -/
def repositoryFiles : FileTree :=
  ⟨[("a.js", .file []), (".git", .folder [("a.js", .file [])])]⟩

/-- A runner with a pattern that would take the folder back. -/
def repositoryRunner : Batch.Runner where
  settings := { ignoreGlobs := ["!.git/"] }
  grammar := fun _ _ => .error "no grammar"

/-- The first script has changed. -/
def repositorySignal : Signal where
  kind := .modified
  source := some (Path.absolute ["a.js"])

/-- The folder with the dot is not taken back. -/
theorem dotfiles_stay_hidden_negated :
    (∃ found, repositoryRunner.discover repositoryFiles [] "/" = .ok ([], found) ∧
      ∀ task ∈ found, ∃ names, task.path = Path.absolute names ∧ ∀ n ∈ names, ¬ IsDotted n) ∧
    ∃ o paths events, Observer.make [] { watchPaths := [], ignored := ["!.git/"] } = .ok o ∧
      o.initialScan repositoryFiles = .ok paths ∧
      (∀ p ∈ paths, ∀ n ∈ Path.segments p, ¬ IsDotted n) ∧
      repositorySignal.events repositoryFiles o.matcher = .ok events ∧
      ∀ e ∈ events, ∃ p, e.path = some p ∧ ∀ n ∈ Path.segments p, ¬ IsDotted n := by
  have hwell : repositoryFiles.WellNamed := by decide +kernel
  have hfree : repositoryFiles.LinkFree := by decide +kernel
  have hunbroken : repositoryFiles.NamesHave (¬ IsBroken ·) := by
    have hnone : (Entry.file []).NamesHave (¬ IsBroken ·) := Entry.namesHave_of_empty rfl
    have hfolder : (Entry.folder [("a.js", .file [])]).NamesHave (¬ IsBroken ·) :=
      Entry.namesHave_of_single rfl (by decide +kernel) hnone
    refine Entry.namesHave_of_children (List.forall_mem_cons.2 ⟨⟨by decide +kernel, hnone⟩, ?_⟩)
    exact List.forall_mem_singleton.2 ⟨by decide +kernel, hfolder⟩
  have hdot : Path.Matcher.dotfiles ∉ ["!.git/"] := by decide +kernel
  have hlinks : repositoryFiles.TargetsHave (¬ IsBroken ·) := fun place target hlink =>
    absurd (FileTree.shape?_eq_link.2 hlink) (hfree.shape?_ne place target)
  obtain ⟨hbatch, hwatch⟩ := dotfiles_stay_hidden hwell hunbroken hdot
  refine ⟨?_, ?_⟩
  · obtain ⟨m, hm⟩ : ∃ m, Batch.matcher repositoryRunner.settings [] = .ok m := ⟨_, rfl⟩
    have hfound := Batch.discover_eq_ok_iff.2 ⟨m, repositoryFiles.resolve_root [], hm, rfl⟩
    exact ⟨_, hfound, hbatch rfl rfl hfound⟩
  · obtain ⟨m, hm⟩ : ∃ m, Path.Matcher.read [] [] ["!.git/"] true = .ok m := ⟨_, rfl⟩
    obtain ⟨paths, hpaths, -⟩ := Observer.exists_initialScan (o := { matcher := m }) hwell hfree
    have hevents : repositorySignal.events repositoryFiles m = .ok (eventsAt m .change ["a.js"]) :=
      eventAt_absolute hfree (by decide +kernel) .change
    obtain ⟨hscan, hsignal⟩ := hwatch (o := { matcher := m }) hm
    refine ⟨{ matcher := m }, paths, _, by rw [Observer.make, hm]; rfl, hpaths,
      fun p hp => (hscan hpaths p hp).2 hlinks, hevents, fun e he => ?_⟩
    obtain ⟨p, hp, -, hhidden⟩ := hsignal (List.forall_mem_nil _) hevents e he
    refine ⟨p, hp, hhidden hlinks (List.forall_mem_nil _) ?_⟩
    rintro text (h | h) <;> cases h <;> decide +kernel

/-- A link that leads nowhere, with a line break in it. -/
def brokenLink : FileTree := ⟨[("l", .link "a\n/.b")]⟩

/-- The link and the place that it stands for are one name of one path. -/
theorem resolve_brokenLink :
    brokenLink.resolve [] (Path.absolute ["l"]) = .ok ["a\n", ".b"] ∧
    brokenLink.resolve [] "/a\n/.b" = .ok ["a\n", ".b"] := by
  have hpath : Path.isAbsolute (Path.absolute ["l"]) = true ∧
      Path.parts (Path.absolute ["l"]) = ["l"] ∧ Path.isAbsolute "/a\n/.b" = true ∧
      Path.parts "/a\n/.b" = ["a\n", ".b"] ∧ Path.isAbsolute "a\n/.b" = false ∧
      Path.parts "a\n/.b" = ["a\n", ".b"] := by decide +kernel
  simp [FileTree.resolve, FileTree.resolveFrom, hpath, brokenLink, FileTree.get?, FileTree.root,
    Entry.get?, Entry.named?, Entry.children, Entry.linkCount, Entry.linkCountAll]

/-- The link leads nowhere. -/
theorem leadsToFolder_brokenLink : brokenLink.leadsToFolder ["l"] = false := by
  have hpath : Path.isAbsolute (Path.absolute ["l"]) = true ∧
      Path.parts (Path.absolute ["l"]) = ["l"] ∧ Path.isAbsolute "a\n/.b" = false ∧
      Path.parts "a\n/.b" = ["a\n", ".b"] := by decide +kernel
  have hmissing : brokenLink.locate [] (Path.absolute ["l"]) = .error .missing := by
    simp [FileTree.locate, FileTree.walkTo_cons, FileTree.linkLimit, FileTree.shape?, hpath,
      brokenLink, FileTree.get?, FileTree.root, Entry.get?, Entry.named?, Entry.children,
      Entry.shape]
  exact FileTree.leadsToFolder_of_locate_error hmissing

/-- A file is gone that was in a folder with a line break in its name. -/
def brokenSignal : Signal where
  kind := .deleted
  source := some "/a\n/.b"

/-- **After a line break** a name that begins with a dot is found, and reported, although there is
no line break in the names of the tree. -/
theorem seen_after_line_break :
    brokenLink.WellNamed ∧ brokenLink.NamesHave (¬ IsBroken ·) ∧
      ∃ o, Observer.make [] { watchPaths := [], ignored := [] } = .ok o ∧
        o.initialScan brokenLink = .ok ["a\n/.b"] ∧
        brokenSignal.events brokenLink o.matcher =
          .ok [{ kind := .unlink, path := some "a\n/.b" }] ∧
        ".b" ∈ Path.segments "a\n/.b" ∧ IsDotted ".b" := by
  have hunbroken : brokenLink.NamesHave (¬ IsBroken ·) :=
    Entry.namesHave_of_single rfl (by decide +kernel) (Entry.namesHave_of_empty rfl)
  obtain ⟨o, hmake⟩ : ∃ o, Observer.make [] { watchPaths := [], ignored := [] } = .ok o := ⟨_, rfl⟩
  have hall : (Observer.make [] { watchPaths := [], ignored := [] }).toOption.all (fun o =>
      o.matcher.root = [] ∧ o.matcher.accepts "a\n/.b" false) = true := by decide +kernel
  rw [hmake] at hall
  obtain ⟨hroot, haccepts⟩ := of_decide_eq_true hall
  have haccepted : ∀ path : String, path.contains '\x00' = false →
      brokenLink.resolve [] path = .ok ["a\n", ".b"] →
      o.matcher.accepted? brokenLink path false = .ok (some "a\n/.b") := by
    intro path hnul hplace
    have hpath : Path.relative ["a\n", ".b"] = "a\n/.b" := by decide +kernel
    rw [Path.Matcher.accepted?, Path.Matcher.relative, hroot, hplace, if_neg (by simp [hnul])]
    simp [pure, Except.pure, bind, Except.bind, Path.Matcher.below?, hroot, hpath, haccepts,
      Option.filter]
  obtain ⟨hresolved, hplain⟩ := resolve_brokenLink
  have hlink := haccepted (Path.absolute ["l"]) (by simp [Path.absolute]) hresolved
  have hgone := haccepted "/a\n/.b" (by simp) hplain
  have hfound : ∀ enter, brokenLink.namesBelow enter [] = [["l"]] := fun enter =>
    FileTree.namesBelow_link enter leadsToFolder_brokenLink
  refine ⟨by decide +kernel, hunbroken, o, hmake, ?_, ?_, by decide +kernel, by decide +kernel⟩
  · simp [Observer.initialScan, hroot, hfound, hlink, pure, Except.pure, bind, Except.bind]
  · simp [Signal.events, brokenSignal, eventAt, hgone]

end Watch

end ScriptScrub
