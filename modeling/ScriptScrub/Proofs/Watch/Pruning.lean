import ScriptScrub.Proofs.Watch.Tracking

/-!
# Scans and reports about the same files

A scan and the report about a new file ask the same matcher, but a scan does not enter ignored
directories, while a report is about its file alone. So a scan finds the files that would be
reported as new, except those with an ignored directory on the way (`scan_agrees_with_reports`).
With plain ignore patterns there are none of these. In general there are: a pattern that takes a
file back does not take back the directory that it is in (`reported_but_not_scanned`).
-/

namespace ScriptScrub.Watch

/-- What the system reports about a new file at a place. -/
def Signal.ofNew (place : List String) : Signal :=
  { kind := .created, source := some (Path.absolute place) }

/-- The signal brings a single event: the file is there, under this path. -/
def Signal.Adds (s : Signal) (files : FileTree) (m : Path.Matcher) (path : String) : Prop :=
  s.events files m = .ok [{ kind := .add, path := some path }]

section
variable {m : Path.Matcher} {files : FileTree} {names : List String}

/-- The only event about a file is under the path under which it is seen. -/
theorem eventsAt_eq_singleton (kind : EventKind) {place : List String} {p : String} :
    eventsAt m kind place = [{ kind, path := some p }] ↔ m.seen? place = some p := by
  cases hseen : m.seen? place <;> simp [eventsAt, hseen]

/-- **A new file is reported** if it is seen. -/
theorem adds_ofNew_iff (hfree : files.LinkFree) {place : List String}
    (hplace : ∀ n ∈ place, Path.IsName n) {p : String} :
    (Signal.ofNew place).Adds files m p ↔ m.seen? place = some p := by
  rw [← eventsAt_eq_singleton .add]
  have hevents : (Signal.ofNew place).events files m = .ok (eventsAt m .add place) :=
    eventAt_absolute hfree hplace .add
  rw [Signal.Adds, hevents, Except.ok.injEq]

/-- A file that is seen under the path along some names from the root is the one that they lead to.
-/
theorem eq_of_seen? {names' : List String} (hnames : ∀ n ∈ names, Path.IsName n)
    (hnames' : ∀ n ∈ names', Path.IsName n)
    (h : m.seen? (m.root ++ names') = some (Path.relative names)) : names' = names := by
  obtain ⟨-, way, heq, hpath, haccepts⟩ := Path.Matcher.seen?_eq_some.1 h
  obtain rfl := List.append_cancel_left heq
  have hne : names ≠ [] := Path.Matcher.ne_nil_of_accepts haccepts
  have hne' : names' ≠ [] := Path.Matcher.ne_nil_of_accepts (hpath ▸ haccepts)
  exact (Path.relative_inj hnames hnames' hne hne' hpath).symm

/-- **A scan finds what would be reported.** In a tree without links a scan comes to its end, and it
finds a file exactly if the signal about a new file at its place adds it under the same path and no
directory on the way is ignored. If the ignore patterns are plain it finds exactly the files that
such a signal adds. -/
theorem scan_agrees_with_reports (o : Observer) (hwell : files.WellNamed)
    (hfree : files.LinkFree) :
    ∃ paths, o.initialScan files = .ok paths ∧
      ∀ names, HasFile files (o.matcher.root ++ names) →
        (Path.relative names ∈ paths ↔
          (Signal.ofNew (o.matcher.root ++ names)).Adds files o.matcher (Path.relative names) ∧
            o.matcher.Reaches names) ∧
        (o.matcher.Plain → (Path.relative names ∈ paths ↔
          (Signal.ofNew (o.matcher.root ++ names)).Adds files o.matcher
            (Path.relative names))) := by
  obtain ⟨paths, hpaths, hmem⟩ := o.exists_initialScan hwell hfree
  refine ⟨paths, hpaths, fun names hfile => ?_⟩
  have hplace := isName_of_hasFile hwell hfile
  have hnames : ∀ n ∈ names, Path.IsName n := fun n hn => hplace n (List.mem_append_right _ hn)
  have hadds : Path.relative names ∈ paths ↔
      (Signal.ofNew (o.matcher.root ++ names)).Adds files o.matcher (Path.relative names) ∧
        o.matcher.Reaches names := by
    rw [hmem, adds_ofNew_iff hfree hplace]
    constructor
    · rintro ⟨names', hfile', hseen, hreaches⟩
      have hnames' : ∀ n ∈ names', Path.IsName n := fun n hn =>
        isName_of_hasFile hwell hfile' n (List.mem_append_right _ hn)
      obtain rfl := eq_of_seen? hnames hnames' hseen
      exact ⟨hseen, hreaches⟩
    · rintro ⟨hseen, hreaches⟩
      exact ⟨names, hfile, hseen, hreaches⟩
  refine ⟨hadds, fun hplain => hadds.trans (and_iff_left_of_imp fun hreported => ?_)⟩
  obtain ⟨-, way, heq, -, haccepts⟩ :=
    Path.Matcher.seen?_eq_some.1 ((adds_ofNew_iff hfree hplace).1 hreported)
  exact hplain.reaches hnames haccepts

end

/-- A library with a single script. -/
def library : FileTree := ⟨[("lib", .folder [("a.js", .file [])])]⟩

/-- Its script is seen if it is accepted. -/
theorem seen?_library {m : Path.Matcher} (hroot : m.root = [])
    (haccepts : m.accepts "lib/a.js" false = true) :
    m.seen? ["lib", "a.js"] = some "lib/a.js" := by
  have hfree : (Path.absolute ["lib", "a.js"]).contains '\x00' = false := by simp [Path.absolute]
  exact Path.Matcher.seen?_eq_some.2 ⟨hfree, ["lib", "a.js"], by rw [hroot]; rfl, rfl, haccepts⟩

/-- With the usual settings the script is found. -/
theorem scan_agrees_with_reports_library :
    ∃ o, Observer.make [] {} = .ok o ∧ library.WellNamed ∧ library.LinkFree ∧ o.matcher.Plain ∧
      ∃ paths, o.initialScan library = .ok paths ∧ "lib/a.js" ∈ paths := by
  obtain ⟨m, hread⟩ : ∃ m, Path.Matcher.read [] ["lib/**/*.js", "main.js"]
      ["node_modules/", "dist/", "build/"] true = .ok m := ⟨_, rfl⟩
  have hall : (Path.Matcher.read [] ["lib/**/*.js", "main.js"]
      ["node_modules/", "dist/", "build/"] true).toOption.all (·.accepts "lib/a.js" false) =
        true := by
    decide +kernel
  rw [hread] at hall
  obtain ⟨hroot, hplain⟩ := Path.Matcher.plain_of_read hread (by decide +kernel)
  have hwell : library.WellNamed := by decide +kernel
  have hfree : library.LinkFree := by decide +kernel
  obtain ⟨paths, hpaths, hfound⟩ := scan_agrees_with_reports { matcher := m } hwell hfree
  refine ⟨{ matcher := m }, by rw [Observer.make, hread]; rfl, hwell, hfree, hplain, paths,
    hpaths, ?_⟩
  have hfile : HasFile library (m.root ++ ["lib", "a.js"]) := by
    rw [hroot]
    rfl
  have hplace := isName_of_hasFile hwell hfile
  refine ((hfound ["lib", "a.js"] hfile).2 hplain).2 ((adds_ofNew_iff hfree hplace).2 ?_)
  rw [hroot]
  exact seen?_library hroot hall

/-- **A file can be reported that no scan finds**: its directory is ignored, and the file itself is
taken back. -/
theorem reported_but_not_scanned :
    ∃ o, Observer.make [] { watchPaths := ["lib/*.js"], ignored := ["lib/", "!lib/a.js"] } = .ok o ∧
      library.WellNamed ∧ library.LinkFree ∧ HasFile library (o.matcher.root ++ ["lib", "a.js"]) ∧
      (Signal.ofNew (o.matcher.root ++ ["lib", "a.js"])).Adds library o.matcher "lib/a.js" ∧
      o.initialScan library = .ok [] := by
  obtain ⟨o, hmake⟩ : ∃ o, Observer.make []
      { watchPaths := ["lib/*.js"], ignored := ["lib/", "!lib/a.js"] } = .ok o := ⟨_, rfl⟩
  have hall : (Observer.make []
      { watchPaths := ["lib/*.js"], ignored := ["lib/", "!lib/a.js"] }).toOption.all (fun o =>
        o.matcher.root = [] ∧ o.matcher.accepts "lib/a.js" false ∧
        library.namesBelow (fun names => o.matcher.accepts (Path.relative names) true) [] = []) =
      true := by decide +kernel
  rw [hmake] at hall
  obtain ⟨hroot, haccepts, hnames⟩ := of_decide_eq_true hall
  have hwell : library.WellNamed := by decide +kernel
  have hfree : library.LinkFree := by decide +kernel
  have hfile : HasFile library (o.matcher.root ++ ["lib", "a.js"]) := by
    rw [hroot]
    rfl
  refine ⟨o, hmake, hwell, hfree, hfile, ?_, ?_⟩
  · rw [adds_ofNew_iff hfree (isName_of_hasFile hwell hfile), hroot]
    exact seen?_library hroot haccepts
  · simp [Observer.initialScan, hroot, hnames, pure, Except.pure, bind, Except.bind]

end ScriptScrub.Watch
