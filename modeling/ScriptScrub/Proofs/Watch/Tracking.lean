import Mathlib.Data.Finset.Basic
import Mathlib.Data.Finset.Dedup
import ScriptScrub.Proofs.FileTree.Walk
import ScriptScrub.Proofs.Path.Matcher
import ScriptScrub.Watch.Observer

/-!
# Reports and scans agree

A scan of files without links finds the paths under which the matcher sees the files that are there,
except for files in directories that are ignored and never entered (`Observer.exists_initialScan`).
If the ignore patterns are plain there are no such exceptions (`Observer.initialScan_eq`). The
events of the report about a change to a file keep the set of these paths up to date
(`Makes.tracks`), so following all reports from the first scan on gives the paths that a last scan
finds (`events_track_scan`).
-/

namespace ScriptScrub.Watch

/-! ## Scans -/

/-- The paths are those under which the files at some places are seen. -/
def Tracks (m : Path.Matcher) (there : List String → Prop) (paths : Finset String) : Prop :=
  ∀ p, p ∈ paths ↔ ∃ place, there place ∧ m.seen? place = some p

/-- There is a file at the place. -/
def HasFile (files : FileTree) (place : List String) : Prop := (files.content? place).isSome = true

/-- Where something that is no folder stands in a tree without links, there is a file. -/
theorem exists_file {files : FileTree} (hfree : files.LinkFree) {place : List String} {e : Entry}
    (he : files.get? place = some e) (hshape : e.shape ≠ .folder) :
    ∃ content, files.get? place = some (.file content) := by
  cases e with
  | file content => exact ⟨content, he⟩
  | link target =>
      exact absurd (by rw [FileTree.shape?, he]; rfl) (hfree.shape?_ne place target)
  | folder es => exact absurd rfl hshape

/-- **A scan finds the files that are seen** and that no ignored directory hides. -/
theorem Observer.exists_initialScan {o : Observer} {files : FileTree} (hwell : files.WellNamed)
    (hfree : files.LinkFree) :
    ∃ paths, o.initialScan files = .ok paths ∧ ∀ p, p ∈ paths ↔
      ∃ names, HasFile files (o.matcher.root ++ names) ∧
        o.matcher.seen? (o.matcher.root ++ names) = some p ∧ o.matcher.Reaches names := by
  have hfound : ∀ names ∈ files.namesBelow
      (fun names => o.matcher.accepts (Path.relative names) true) o.matcher.root,
      (∃ content, files.get? (o.matcher.root ++ names) = some (.file content)) ∧
        o.matcher.Reaches names := by
    intro names hnames
    obtain ⟨⟨e, he, hshape⟩, hentered⟩ := FileTree.found_of_mem_namesBelow hwell hnames
    have hisName := hwell.isName he
    exact ⟨exists_file hfree he hshape, (Path.Matcher.reaches_iff fun n hn =>
      hisName n (List.mem_append_right _ hn)).2 hentered⟩
  have hseen := mapM_eq_ok fun names hnames => by
    obtain ⟨⟨content, hcontent⟩, -⟩ := hfound names hnames
    exact o.matcher.accepted?_absolute hfree (hwell.isName hcontent)
  refine ⟨_, by rw [initialScan, hseen]; rfl, fun p => ?_⟩
  rw [List.mem_mergeSort, List.filterMap_map, List.mem_filterMap]
  constructor
  · rintro ⟨names, hnames, hp⟩
    obtain ⟨⟨content, hcontent⟩, hreaches⟩ := hfound names hnames
    exact ⟨names, by simp [HasFile, FileTree.content?_eq_some.2 hcontent], hp, hreaches⟩
  · rintro ⟨names, hfile, hp, hreaches⟩
    obtain ⟨content, hcontent⟩ := Option.isSome_iff_exists.1 hfile
    rw [FileTree.content?_eq_some] at hcontent
    have hisName := hwell.isName hcontent
    obtain ⟨-, names', heq, rfl, haccepts⟩ := Path.Matcher.seen?_eq_some.1 hp
    obtain rfl := List.append_cancel_left heq
    refine ⟨names, ?_, hp⟩
    refine (FileTree.mem_namesBelow_iff hwell).2 ⟨Path.Matcher.ne_nil_of_accepts haccepts,
      ⟨_, hcontent, rfl⟩, ?_⟩
    exact (Path.Matcher.reaches_iff fun n hn => hisName n (List.mem_append_right _ hn)).1 hreaches

/-- **A scan with plain ignore patterns finds the files that are seen**: no file is hidden. -/
theorem Observer.initialScan_eq {o : Observer} {files : FileTree} (hwell : files.WellNamed)
    (hfree : files.LinkFree) (hplain : o.matcher.Plain) :
    ∃ paths, o.initialScan files = .ok paths ∧
      Tracks o.matcher (HasFile files) paths.toFinset := by
  obtain ⟨paths, hpaths, hmem⟩ := o.exists_initialScan hwell hfree
  refine ⟨paths, hpaths, fun p => ?_⟩
  rw [List.mem_toFinset, hmem]
  constructor
  · rintro ⟨names, hfile, hp, -⟩
    exact ⟨_, hfile, hp⟩
  · rintro ⟨place, hfile, hp⟩
    obtain ⟨content, hcontent⟩ := Option.isSome_iff_exists.1 hfile
    have hisName := hwell.isName (FileTree.content?_eq_some.1 hcontent)
    obtain ⟨-, names, rfl, rfl, haccepts⟩ := Path.Matcher.seen?_eq_some.1 hp
    exact ⟨names, hfile, hp,
      hplain.reaches (fun n hn => hisName n (List.mem_append_right _ hn)) haccepts⟩

/-! ## Changes -/

/-- What somebody does to a file. -/
inductive FileChange where
  | create (place : List String) (content : Bytes)
  | modify (place : List String) (content : Bytes)
  | delete (place : List String)
  /-- A file that is at the target is lost. -/
  | move (place target : List String)
deriving Repr, DecidableEq

namespace FileChange

/-- What the system reports. -/
def signal : FileChange → Signal
  | create place _ => { kind := .created, source := some (Path.absolute place) }
  | modify place _ => { kind := .modified, source := some (Path.absolute place) }
  | delete place => { kind := .deleted, source := some (Path.absolute place) }
  | move place target =>
    { kind := .moved, source := some (Path.absolute place), target := some (Path.absolute target) }

/-- The contents of files after the change. -/
def contents (before : List String → Option Bytes) : FileChange → List String → Option Bytes
  | create place content, p | modify place content, p =>
    if p = place then some content else before p
  | delete place, p => if p = place then none else before p
  | move place target, p =>
    if p = target then before place else if p = place then none else before p

/-- The change can be made: there is a file, or no file when one is created. -/
def Possible (files : FileTree) : FileChange → Prop
  | create place _ => ¬ HasFile files place
  | modify place _ | delete place | move place _ => HasFile files place

end FileChange

/-- The change turns the files of one tree into those of another one. Folders may come and go. -/
structure Makes (files : FileTree) (c : FileChange) (files' : FileTree) : Prop where
  possible : c.Possible files
  contents : ∀ place, files'.content? place = c.contents files.content? place
  wellNamed : files'.WellNamed
  linkFree : files'.LinkFree

/-- Changes one after the other, each with the files as they are when somebody looks at its report.
-/
inductive Changes : FileTree → List (FileChange × FileTree) → FileTree → Prop
  | none {files : FileTree} : Changes files [] files
  | more {files files' files'' looked : FileTree} {cs : List (FileChange × FileTree)}
      {c : FileChange} (h : Changes files cs files') (hc : Makes files' c files'')
      (hlooked : looked.LinkFree) : Changes files (cs ++ [(c, looked)]) files''

/-! ## Events -/

/-- A set of paths after an event: a file that is new comes to it, one that is gone leaves it. -/
def Event.revise (paths : Finset String) (e : Event) : Finset String :=
  match e.kind, e.path with
  | .add, some p => insert p paths
  | .unlink, some p => paths.erase p
  | _, _ => paths

/-- The events of some kind about the file at a place, if it is seen. -/
def eventsAt (m : Path.Matcher) (kind : EventKind) (place : List String) : List Event :=
  (m.seen? place).toList.map fun p => { kind, path := some p }

/-- The events about a change. -/
def FileChange.events (m : Path.Matcher) : FileChange → List Event
  | create place _ => eventsAt m .add place
  | modify place _ => eventsAt m .change place
  | delete place => eventsAt m .unlink place
  | move place target => eventsAt m .unlink place ++ eventsAt m .add target

/-- Events about changed and deleted files concern paths that are in the set then. -/
def Known (paths : Finset String) : List Event → Prop
  | [] => True
  | e :: es => (e.kind = .unlink ∨ e.kind = .change → ∃ p ∈ paths, e.path = some p) ∧
      Known (e.revise paths) es

/-- What is known of events in two parts. -/
theorem known_append {paths : Finset String} {es es' : List Event} :
    Known paths (es ++ es') ↔ Known paths es ∧ Known (es.foldl Event.revise paths) es' := by
  induction es generalizing paths with
  | nil => simp [Known]
  | cons e es ih => simp [Known, ih, and_assoc]

section
variable {m : Path.Matcher} {there there' : List String → Prop} {paths : Finset String}
  {files files' looked : FileTree} {place : List String}

/-- The paths are told by the places at which files are. -/
theorem Tracks.congr (h : Tracks m there paths) (heq : ∀ place, there' place ↔ there place) :
    Tracks m there' paths := by
  intro p
  simp only [h p, heq]

/-- The events about a new file keep the paths up to date. -/
theorem Tracks.add (h : Tracks m there paths) (place : List String) :
    Tracks m (fun p => p = place ∨ there p) ((eventsAt m .add place).foldl Event.revise paths) := by
  intro p
  cases hseen : m.seen? place with
  | none => simp [eventsAt, hseen, h p, or_and_right, exists_or]
  | some q =>
      simp [eventsAt, hseen, Event.revise, h p, or_and_right, exists_or, eq_comm]

/-- The events about a file that is gone keep the paths up to date, and the path was among them. -/
theorem Tracks.unlink (h : Tracks m there paths) (hnames : ∀ p, there p → ∀ n ∈ p, Path.IsName n)
    (hplace : there place) :
    Tracks m (fun p => p ≠ place ∧ there p) ((eventsAt m .unlink place).foldl Event.revise paths) ∧
      Known paths (eventsAt m .unlink place) := by
  cases hseen : m.seen? place with
  | none =>
      refine ⟨fun p => ?_, by simp [eventsAt, hseen, Known]⟩
      simp only [eventsAt, hseen, Option.toList_none, List.map_nil, List.foldl_nil, h p]
      refine exists_congr fun p' => and_congr_left fun hp' => (and_iff_right ?_).symm
      rintro rfl
      simp [hseen] at hp'
  | some q =>
      have hq : q ∈ paths := (h q).2 ⟨place, hplace, hseen⟩
      refine ⟨fun p => ?_, by simp [eventsAt, hseen, Known, hq]⟩
      simp only [eventsAt, hseen, Option.toList_some, List.map_cons, List.map_nil, List.foldl_cons,
        List.foldl_nil, Event.revise, Finset.mem_erase, h p]
      constructor
      · rintro ⟨hne, p', hthere, hp'⟩
        refine ⟨p', ⟨?_, hthere⟩, hp'⟩
        rintro rfl
        exact hne (Option.some.inj (hp'.symm.trans hseen))
      · rintro ⟨p', ⟨hne, hthere⟩, hp'⟩
        refine ⟨?_, p', hthere, hp'⟩
        rintro rfl
        exact hne (Path.Matcher.seen?_inj (hnames p' hthere) (hnames place hplace) hp' hseen)

/-- The events about a file with another content are about one of the paths. -/
theorem Tracks.change (h : Tracks m there paths) (hplace : there place) :
    (eventsAt m .change place).foldl Event.revise paths = paths ∧
      Known paths (eventsAt m .change place) := by
  cases hseen : m.seen? place with
  | none => simp [eventsAt, hseen, Known]
  | some q => simp [eventsAt, hseen, Known, Event.revise, (h q).2 ⟨place, hplace, hseen⟩]

/-- New files are always known. -/
theorem known_add (paths : Finset String) (m : Path.Matcher) (place : List String) :
    Known paths (eventsAt m .add place) := by
  cases hseen : m.seen? place <;> simp [eventsAt, hseen, Known]

/-- The events of a signal about a file. -/
theorem eventAt_absolute (hlooked : looked.LinkFree) (hplace : ∀ n ∈ place, Path.IsName n)
    (kind : EventKind) :
    eventAt looked m kind (some (Path.absolute place)) = .ok (eventsAt m kind place) := by
  rw [eventAt, m.accepted?_absolute hlooked hplace]
  rfl

/-- The way to a file is made of names. -/
theorem isName_of_hasFile (hwell : files.WellNamed) (h : HasFile files place) :
    ∀ n ∈ place, Path.IsName n := by
  obtain ⟨content, hcontent⟩ := Option.isSome_iff_exists.1 h
  exact hwell.isName (FileTree.content?_eq_some.1 hcontent)

variable {c : FileChange}

/-- **The events of a report**, whenever somebody looks at it. -/
theorem Makes.signal_events (h : Makes files c files') (hwell : files.WellNamed)
    (hlooked : looked.LinkFree) : c.signal.events looked m = .ok (c.events m) := by
  have hafter : ∀ place content, files'.content? place = some content →
      ∀ n ∈ place, Path.IsName n := fun place content hcontent =>
    isName_of_hasFile h.wellNamed (by simp [HasFile, hcontent])
  have hbefore : ∀ place, HasFile files place → ∀ n ∈ place, Path.IsName n :=
    fun place => isName_of_hasFile hwell
  obtain ⟨hpossible, hcontents, -, -⟩ := h
  cases c with
  | create place content | modify place content =>
      have hname := hafter place content (by simp [hcontents, FileChange.contents])
      exact eventAt_absolute hlooked hname _
  | delete place => exact eventAt_absolute hlooked (hbefore place hpossible) _
  | move place target =>
      obtain ⟨content, hcontent⟩ := Option.isSome_iff_exists.1 hpossible
      have hname := hafter target content (by simp [hcontents, FileChange.contents, hcontent])
      show (do
        let gone ← eventAt looked m .unlink (some (Path.absolute place))
        return gone ++ (← eventAt looked m .add (some (Path.absolute target)))) = _
      rw [eventAt_absolute hlooked (hbefore place hpossible), eventAt_absolute hlooked hname]
      rfl

/-- **The events of a report keep the paths up to date**, and they are about paths that are known.
-/
theorem Makes.tracks (h : Makes files c files') (hwell : files.WellNamed)
    (hpaths : Tracks m (HasFile files) paths) :
    Tracks m (HasFile files') ((c.events m).foldl Event.revise paths) ∧
      Known paths (c.events m) := by
  obtain ⟨hpossible, hcontents, -, -⟩ := h
  have hnames : ∀ p, HasFile files p → ∀ n ∈ p, Path.IsName n := fun p => isName_of_hasFile hwell
  cases c with
  | create place content =>
      refine ⟨(hpaths.add place).congr fun p => ?_, known_add paths m place⟩
      rw [HasFile, hcontents, FileChange.contents]
      split <;> simp_all [HasFile]
  | modify place content =>
      obtain ⟨hfold, hknown⟩ := hpaths.change hpossible
      refine ⟨?_, hknown⟩
      rw [FileChange.events, hfold]
      refine hpaths.congr fun p => ?_
      rw [HasFile, hcontents, FileChange.contents]
      split <;> simp_all [FileChange.Possible, HasFile]
  | delete place =>
      obtain ⟨hfold, hknown⟩ := hpaths.unlink hnames hpossible
      refine ⟨hfold.congr fun p => ?_, hknown⟩
      rw [HasFile, hcontents, FileChange.contents]
      split <;> simp_all [HasFile]
  | move place target =>
      obtain ⟨hfold, hknown⟩ := hpaths.unlink hnames hpossible
      rw [FileChange.events, List.foldl_append, known_append]
      refine ⟨(hfold.add target).congr fun p => ?_, hknown, known_add _ m target⟩
      rw [HasFile, hcontents, FileChange.contents]
      split
      · simp_all [FileChange.Possible, HasFile]
      · split <;> simp_all [HasFile]

/-- **The events of all reports** keep the paths up to date. -/
theorem Changes.tracks {cs : List (FileChange × FileTree)} (h : Changes files cs files')
    (hwell : files.WellNamed) (hfree : files.LinkFree) (hpaths : Tracks m (HasFile files) paths) :
    (files'.WellNamed ∧ files'.LinkFree) ∧
    ∃ events, (cs.mapM fun c => c.1.signal.events c.2 m) = .ok events ∧
      Tracks m (HasFile files') (events.flatten.foldl Event.revise paths) ∧
      Known paths events.flatten := by
  induction h with
  | none => exact ⟨⟨hwell, hfree⟩, [], rfl, hpaths, trivial⟩
  | @more _ _ _ _ c _ hc hlooked ih =>
      obtain ⟨⟨hwell', -⟩, events, hevents, htracks, hknown⟩ := ih
      obtain ⟨htracks', hknown'⟩ := hc.tracks hwell' htracks
      refine ⟨⟨hc.wellNamed, hc.linkFree⟩, events ++ [c.events m], ?_, ?_, ?_⟩
      · rw [List.mapM_append, hevents, List.mapM_cons, hc.signal_events hwell' hlooked]
        rfl
      · simpa using htracks'
      · simpa [known_append] using ⟨hknown, hknown'⟩

end

/-- An event that is known is about one of the paths then. -/
theorem Known.mem {paths : Finset String} {before after : List Event} {e : Event}
    (h : Known paths (before ++ e :: after)) (he : e.kind = .unlink ∨ e.kind = .change) :
    ∃ p ∈ before.foldl Event.revise paths, e.path = some p :=
  (known_append.1 h).2.1 he

/-- Paths that track the same files are the same. -/
theorem Tracks.unique {m : Path.Matcher} {there : List String → Prop} {paths paths' : Finset String}
    (h : Tracks m there paths) (h' : Tracks m there paths') : paths = paths' := by
  ext p
  rw [h p, h' p]

/-- **Reports track the watched files.** Where no links are, and the ignore patterns are plain, the
first scan, the reports about all changes and a last scan come to their ends. Both scans find the
files that are seen then. The paths of the first one, with those that are new and without those that
are gone according to the events in their order, are exactly those of the last one; and what is
reported as changed or gone is one of the paths then. -/
theorem events_track_scan {root : List String} {settings : Config.WatchSettings} {o : Observer}
    (hmake : Observer.make root settings = .ok o)
    (hplain : ∀ text ∈ settings.ignored, Glob.PatternList.IsPlainText text)
    {files files' : FileTree} (hwell : files.WellNamed) (hfree : files.LinkFree)
    {cs : List (FileChange × FileTree)} (h : Changes files cs files') :
    ∃ first events last,
      (o.initialScan files = .ok first ∧ Tracks o.matcher (HasFile files) first.toFinset) ∧
      (cs.mapM fun c => c.1.signal.events c.2 o.matcher) = .ok events ∧
      (o.initialScan files' = .ok last ∧ Tracks o.matcher (HasFile files') last.toFinset) ∧
      events.flatten.foldl Event.revise first.toFinset = last.toFinset ∧
      ∀ before e after, events.flatten = before ++ e :: after →
        e.kind = .unlink ∨ e.kind = .change →
        ∃ p ∈ before.foldl Event.revise first.toFinset, e.path = some p := by
  obtain ⟨m, hread, hmake⟩ := bind_eq_ok.1 hmake
  cases hmake
  obtain ⟨-, hm⟩ := Path.Matcher.plain_of_read hread hplain
  obtain ⟨first, hfirst, htracks⟩ := Observer.initialScan_eq (o := { matcher := m }) hwell hfree hm
  obtain ⟨⟨hwell', hfree'⟩, events, hevents, hrevised, hknown⟩ := h.tracks hwell hfree htracks
  obtain ⟨last, hlast, htracks'⟩ := Observer.initialScan_eq (o := { matcher := m }) hwell' hfree' hm
  refine ⟨first, events, last, ⟨hfirst, htracks⟩, hevents, ⟨hlast, htracks'⟩,
    hrevised.unique htracks', ?_⟩
  intro before e after hsplit he
  rw [hsplit] at hknown
  exact hknown.mem he

/-- The contents of files if there is only one, next to the root. -/
theorem content?_single (name : String) (content : Bytes) (place : List String) :
    (⟨[(name, .file content)]⟩ : FileTree).content? place =
      if place = [name] then some content else none := by
  rw [FileTree.content?, FileTree.get?, FileTree.root]
  rcases place with _ | ⟨n, rest⟩
  · rfl
  · rw [Entry.get?, Entry.children, Entry.named?_cons]
    by_cases hn : name = n
    · subst hn
      cases rest <;> simp [Entry.get?, Entry.children, Entry.named?, Entry.content?]
    · simp [hn, Ne.symm hn, Entry.named?]

/-- A file is created and then moved to a name that is not watched. -/
theorem events_track_scan_moved :
    let created : FileTree := ⟨[("a.js", .file [])]⟩
    let moved : FileTree := ⟨[("b.js", .file [])]⟩
    ∃ o, Observer.make [] { watchPaths := ["a.js"] } = .ok o ∧
      ∃ first events last, o.initialScan {} = .ok first ∧
        ([(.create ["a.js"] [], created), (.move ["a.js"] ["b.js"], moved)].mapM
          fun c : FileChange × FileTree => c.1.signal.events c.2 o.matcher) = .ok events ∧
        o.initialScan moved = .ok last ∧
        events.flatten.foldl Event.revise first.toFinset = last.toFinset := by
  intro created moved
  obtain ⟨o, hmake⟩ : ∃ o, Observer.make [] { watchPaths := ["a.js"] } = .ok o := ⟨_, rfl⟩
  have hcreate : Makes {} (.create ["a.js"] []) created := by
    refine ⟨nofun, fun place => ?_, rfl, rfl⟩
    have hnone : ({} : FileTree).content? place = none := by cases place <;> rfl
    rw [content?_single, FileChange.contents, hnone]
  have hmove : Makes created (.move ["a.js"] ["b.js"]) moved := by
    refine ⟨rfl, fun place => ?_, rfl, rfl⟩
    rw [content?_single, FileChange.contents, content?_single, content?_single]
    split <;> simp_all
  have hchanges : Changes {} ([] ++ [(.create ["a.js"] [], created)] ++
      [(.move ["a.js"] ["b.js"], moved)]) moved :=
    .more (.more .none hcreate rfl) hmove rfl
  have hwell : ({} : FileTree).WellNamed := rfl
  have hfree : ({} : FileTree).LinkFree := rfl
  obtain ⟨first, events, last, ⟨hall, -⟩, hevents, ⟨hlast, -⟩, hset, -⟩ :=
    events_track_scan hmake (by decide +kernel) hwell hfree hchanges
  exact ⟨o, hmake, first, events, last, hall, hevents, hlast, hset⟩

end ScriptScrub.Watch
