import ScriptScrub.Proofs.Batch.Protected
import ScriptScrub.Proofs.Sanitizer.Overflow
import ScriptScrub.Proofs.Syntax.Faults

/-!
# Files that do not touch each other

How a file of a batch ends, and the text that it is given, is told from what belongs to the file
alone (`Own.ending`). In a tree without links processing one file leaves all others as they are
(`process_eq`), so a run comes to the endings of the single files, whatever the others hold and
whether they fail (`processAll_eq`), and it changes exactly the files that are given another text
(`isolated_run`).
-/

namespace ScriptScrub

namespace Sanitizer

open Config (SanitizerSettings)

/-- A string is sanitized to some result if the tree that it gets fits it and the stack. -/
theorem exists_sanitizeWith {g : Grammar} {settings : SanitizerSettings} {text path : String}
    {room : Scope.Room}
    (hfit : ∀ root, g.parse path (Text.encode text) = .ok root →
      (Fitting (Text.encode text) root ∧ MatchesApart (Text.encode text) settings root) ∧
        room.Suffices (Text.encode text) root) :
    ∃ result, sanitizeWith g g settings (text.toList.map (·.toNat)) path room = .ok result := by
  rw [sanitizeWith, sanitizeBy, Text.encode?_toNat]
  dsimp only
  cases hroot : g.parse path (Text.encode text) with
  | error failure => exact ⟨.error failure, rfl⟩
  | ok root =>
      obtain ⟨⟨hfits, hapart⟩, hroom⟩ := hfit root hroot
      obtain ⟨output, hout, htext⟩ := exists_text_editsOf (Text.isText_encode text) hfits hapart
      dsimp only
      rw [rewriteTree_of_suffices hroom]
      exact rewriteTree_eq_ok hout htext

end Sanitizer

namespace Batch

open Config (SanitizerSettings)

/-! ## A file by itself -/

/-- What belongs to a file of a batch alone: its path, whether it is excluded, its bytes, and
whether it may be read and written to. -/
structure Own where
  path : String
  excluded : Bool
  bytes : Bytes
  readable : Bool
  writable : Bool

/-- How a file with some text ends, and the text that it is given unless it is left as it is. -/
def Own.endingOf (g : Grammar) (settings : SanitizerSettings) (room : Scope.Room) (o : Own)
    (text : String) : Except Sanitizer.Breakdown (Outcome × Option String) :=
  match Sanitizer.sanitizeWith g g settings (text.toList.map (·.toNat)) o.path room with
  | .error e => .error e
  | .ok (.error failure) => .ok (.errored o.path failure, none)
  | .ok (.ok s) =>
    if s.code = text then .ok (.processed o.path false, none)
    else if o.writable then .ok (.processed o.path true, some s.code)
    else .ok (.errored o.path
      ⟨o.path, .unwritable (FileError.denied.message (Path.tidy o.path)), none⟩, none)

/-- How a file ends, and the text that it is given unless it is left as it is. -/
def Own.ending (g : Grammar) (settings : SanitizerSettings) (room : Scope.Room) (o : Own) :
    Except Sanitizer.Breakdown (Outcome × Option String) :=
  if o.excluded then .ok (.skipped o.path, none)
  else if !o.readable then
    .ok (.errored o.path
      ⟨o.path, .unreadable (FileError.denied.message (Path.tidy o.path)), none⟩, none)
  else match Text.decode? o.bytes with
    | none => .ok (.errored o.path ⟨o.path, .unreadable (Text.faultMessage o.bytes), none⟩, none)
    | some text => o.endingOf g settings room text

/-- What belongs to a file with some bytes in a run. -/
def Runner.own (r : Runner) (task : Task) (bytes : Bytes) : Own where
  path := task.path
  excluded := task.excluded
  bytes
  readable := !r.denied .read task.path
  writable := !r.denied .write task.path

/-- A file is given a text: it is not excluded, it can be read, its bytes are a text that is
sanitized to another one, and it can be written to. -/
structure Own.Rewritten (g : Grammar) (settings : SanitizerSettings) (room : Scope.Room) (o : Own)
    (code : String) : Prop where
  notExcluded : o.excluded = false
  readable : o.readable = true
  sanitized : ∃ text s, Text.decode? o.bytes = some text ∧
    Sanitizer.sanitizeWith g g settings (text.toList.map (·.toNat)) o.path room = .ok (.ok s) ∧
    s.code = code ∧ code ≠ text
  writable : o.writable = true

section
variable {g : Grammar} {settings : SanitizerSettings} {room : Scope.Room} {o : Own}

/-- The text that a file with some text is given is the sanitized one, if that is another one. -/
theorem Own.endingOf_text {text : String} {outcome : Outcome} {text? : Option String}
    (h : o.endingOf g settings room text = .ok (outcome, text?)) (code : String) :
    text? = some code ↔
      (∃ s, Sanitizer.sanitizeWith g g settings (text.toList.map (·.toNat)) o.path room =
        .ok (.ok s) ∧ s.code = code ∧ code ≠ text) ∧ o.writable = true := by
  rw [Own.endingOf] at h
  split at h
  · cases h
  · next hfailure =>
    cases h
    refine iff_of_false nofun ?_
    rintro ⟨⟨s, hs, -⟩, -⟩
    rw [hfailure] at hs
    cases hs
  next s hs =>
  have hsame : ∀ {s'},
      Sanitizer.sanitizeWith g g settings (text.toList.map (·.toNat)) o.path room =
        .ok (.ok s') → s' = s := by
    intro s' hs'
    rw [hs] at hs'
    cases hs'
    rfl
  split at h
  · next hcode =>
    cases h
    refine iff_of_false nofun ?_
    rintro ⟨⟨s', hs', rfl, hne⟩, -⟩
    exact hne (by rw [hsame hs', hcode])
  next hcode =>
  split at h
  · next hwritable =>
    cases h
    constructor
    · intro heq
      cases heq
      exact ⟨⟨s, hs, rfl, hcode⟩, hwritable⟩
    · rintro ⟨⟨s', hs', rfl, -⟩, -⟩
      rw [hsame hs']
  · next hunwritable =>
    cases h
    exact iff_of_false nofun fun hr => hunwritable hr.2

/-- **The text that a file is given** is the sanitized one. -/
theorem Own.ending_text {outcome : Outcome} {text? : Option String}
    (h : o.ending g settings room = .ok (outcome, text?)) (code : String) :
    text? = some code ↔ o.Rewritten g settings room code := by
  rw [Own.ending] at h
  split at h
  · next hx =>
    cases h
    exact iff_of_false nofun fun hr => by rw [hr.notExcluded] at hx; cases hx
  next hx =>
  split at h
  · next hread =>
    cases h
    exact iff_of_false nofun fun hr => by rw [hr.readable] at hread; cases hread
  next hread =>
  split at h
  · next hnone =>
    cases h
    refine iff_of_false nofun fun hr => ?_
    obtain ⟨text, s, htext, -⟩ := hr.sanitized
    rw [hnone] at htext
    cases htext
  next text htext =>
  rw [Own.endingOf_text h]
  constructor
  · rintro ⟨⟨s, hs⟩, hwritable⟩
    exact ⟨Bool.eq_false_iff.2 hx, by simpa using hread, ⟨text, s, htext, hs⟩, hwritable⟩
  · intro hr
    obtain ⟨text', s, htext', hs⟩ := hr.sanitized
    rw [htext] at htext'
    cases htext'
    exact ⟨⟨s, hs⟩, hr.writable⟩

/-- A file has an ending if the trees that texts get fit them and the stack. -/
theorem Own.exists_ending (hfit : ∀ text root, Text.decode? o.bytes = some text →
      g.parse o.path (Text.encode text) = .ok root →
      (Sanitizer.Fitting (Text.encode text) root ∧
        Sanitizer.MatchesApart (Text.encode text) settings root) ∧
        room.Suffices (Text.encode text) root) :
    ∃ outcome text?, o.ending g settings room = .ok (outcome, text?) := by
  rw [Own.ending]
  split
  · exact ⟨_, _, rfl⟩
  split
  · exact ⟨_, _, rfl⟩
  split
  · exact ⟨_, _, rfl⟩
  next text htext =>
  obtain ⟨result, hresult⟩ := Sanitizer.exists_sanitizeWith fun root => hfit text root htext
  rw [Own.endingOf, hresult]
  cases result with
  | error failure => exact ⟨_, _, rfl⟩
  | ok s =>
      dsimp only
      split
      · exact ⟨_, _, rfl⟩
      split
      · exact ⟨_, _, rfl⟩
      · exact ⟨_, _, rfl⟩

end

/-! ## One file of many -/

/-- A file of a run: its place, how it ends by itself, and the text that it is given. -/
structure Ending where
  place : List String
  outcome : Outcome
  text? : Option String

/-- The file that a path leads to ends so by itself. -/
structure EndsAlone (r : Runner) (files : FileTree) (here : List String) (task : Task)
    (e : Ending) : Prop where
  locate : files.locate here task.path = .ok e.place
  ending : ∃ bytes, files.content? e.place = some bytes ∧
    (r.own task bytes).ending r.grammar r.sanitizer r.room = .ok (e.outcome, e.text?)

/-- The content of the files after one of them was given its text. -/
def Ending.content? (e : Ending) (files : FileTree) (x : List String) : Option Bytes :=
  match e.text? with
  | some code => if x = e.place then some (Text.encode code) else files.content? x
  | none => files.content? x

section
variable {r : Runner} {files : FileTree} {here : List String}

/-- Rewriting a file comes to what its text comes to, and changes its content only. -/
theorem rewrite_eq (hr : r.Undisturbed) (hdry : r.dryRun = false) {task : Task}
    {place : List String} {bytes : Bytes} (hplace : files.locate here task.path = .ok place)
    (hold : files.get? place = some (.file bytes)) {text : String} {outcome : Outcome}
    {text? : Option String}
    (hending : (r.own task bytes).endingOf r.grammar r.sanitizer r.room text =
      .ok (outcome, text?)) :
    ∃ done, r.rewrite files here task.path text = .ok (done, outcome) ∧ files.Alike done.files ∧
      ∀ x, done.files.content? x = Ending.content? ⟨place, outcome, text?⟩ files x := by
  rw [Own.endingOf] at hending
  rw [Runner.rewrite, hr]
  split at hending
  · cases hending
  · next failure hfailure =>
    rw [show Sanitizer.sanitizeWith r.grammar r.grammar r.sanitizer (text.toList.map (·.toNat))
      task.path r.room = .ok (.error failure) from hfailure]
    cases hending
    exact ⟨_, rfl, .refl files, fun _ => rfl⟩
  next s hs =>
  rw [show Sanitizer.sanitizeWith r.grammar r.grammar r.sanitizer (text.toList.map (·.toNat))
    task.path r.room = .ok (.ok s) from hs, hdry]
  dsimp only
  split at hending
  · next hcode =>
    cases hending
    rw [if_neg (by simp [hcode]), bne_eq_false_iff_eq.2 hcode]
    exact ⟨_, rfl, .refl files, fun _ => rfl⟩
  next hcode =>
  rw [if_pos (by simp [hcode]), Runner.write, bne_iff_ne.2 hcode]
  split at hending
  · next hwritable =>
    have hallowed : ¬ r.denied .write task.path = true := by simpa [Runner.own] using hwritable
    have hwritten := FileTree.write_eq_ok_iff.2
      ⟨place, bytes, hplace, hold, (rfl : files.put place (.file (Text.encode s.code)) = _)⟩
    cases hending
    rw [if_neg hallowed, hwritten]
    exact ⟨_, rfl, FileTree.alike_put hold, fun x => FileTree.content?_put hold x⟩
  · next hunwritable =>
    have hdenied : r.denied .write task.path = true := by simpa [Runner.own] using hunwritable
    cases hending
    rw [if_pos hdenied]
    exact ⟨_, rfl, .refl files, fun _ => rfl⟩

/-- **Processing a file** comes to what the file comes to by itself, and changes its content
only. -/
theorem process_eq (hr : r.Undisturbed) (hdry : r.dryRun = false) {task : Task} {e : Ending}
    (h : EndsAlone r files here task e) :
    ∃ done, r.process files here task = .ok (done, e.outcome) ∧ files.Alike done.files ∧
      ∀ x, done.files.content? x = e.content? files x := by
  obtain ⟨place, outcome, text?⟩ := e
  obtain ⟨hplace, bytes, hbytes, hending⟩ := h
  dsimp only at hplace hbytes hending ⊢
  rw [Own.ending] at hending
  rw [Runner.process, Runner.read, FileTree.read_of_locate hplace hbytes]
  split at hending
  · next hx =>
    have hexcluded : task.excluded = true := hx
    cases hending
    rw [if_pos hexcluded]
    exact ⟨_, rfl, .refl files, fun _ => rfl⟩
  next hx =>
  have hincluded : ¬ task.excluded = true := hx
  rw [if_neg hincluded]
  split at hending
  · next hunreadable =>
    have hdenied : r.denied .read task.path = true := by simpa [Runner.own] using hunreadable
    cases hending
    rw [if_pos hdenied]
    exact ⟨_, rfl, .refl files, fun _ => rfl⟩
  next hreadable =>
  have hallowed : ¬ r.denied .read task.path = true := by simpa [Runner.own] using hreadable
  rw [if_neg hallowed]
  dsimp only
  split at hending
  · next hnone =>
    have hundecodable : Text.decode? bytes = none := hnone
    cases hending
    rw [hundecodable]
    exact ⟨_, rfl, .refl files, fun _ => rfl⟩
  next text htext =>
  have hdecoded : Text.decode? bytes = some text := htext
  rw [hdecoded]
  exact rewrite_eq hr hdry hplace (FileTree.content?_eq_some.1 hbytes) hending

/-- What becomes of one file has no part in what becomes of another. -/
theorem EndsAlone.congr {after : FileTree} {task : Task} {e : Ending}
    (h : EndsAlone r files here task e) (halike : files.Alike after)
    (hcontent : after.content? e.place = files.content? e.place) :
    EndsAlone r after here task e := by
  obtain ⟨hplace, bytes, hbytes, hending⟩ := h
  refine ⟨?_, bytes, ?_, hending⟩
  · rw [halike.locate, hplace]
  · rw [hcontent, hbytes]

/-- The text that is given to the file at a place, if it is one of the files with these endings. -/
def given? (ending : Task → Ending) (tasks : List Task) (x : List String) : Option String :=
  (tasks.find? fun task => (ending task).place = x).bind fun task => (ending task).text?

/-- The first file is given its text, the others are given theirs. -/
theorem given?_cons (ending : Task → Ending) (task : Task) (tasks : List Task) (x : List String) :
    given? ending (task :: tasks) x =
      if (ending task).place = x then (ending task).text? else given? ending tasks x := by
  rw [given?, List.find?_cons]
  by_cases h : (ending task).place = x
  · rw [if_pos h, decide_eq_true h]
    rfl
  · rw [if_neg h, decide_eq_false h]
    rfl

/-- **Processing files one after the other** comes to what each of them comes to by itself. -/
theorem processAll_eq (hr : r.Undisturbed) (hdry : r.dryRun = false) {ending : Task → Ending}
    {tasks : List Task} (tally : Tally)
    (h : ∀ task ∈ tasks, EndsAlone r tally.files here task (ending task))
    (hplaces : (tasks.map fun task => (ending task).place).Nodup) :
    ∃ after, r.processAll here tally tasks = (after, none) ∧
      after.outcomes = tally.outcomes ++ tasks.map (fun task => (ending task).outcome) ∧
      ∀ x, after.files.content? x =
        ((given? ending tasks x).map Text.encode).or (tally.files.content? x) := by
  induction tasks generalizing tally with
  | nil => exact ⟨tally, rfl, (List.append_nil _).symm, fun _ => rfl⟩
  | cons task tasks ih =>
      obtain ⟨hfirst, hrest⟩ := List.forall_mem_cons.1 h
      rw [List.map_cons, List.nodup_cons] at hplaces
      obtain ⟨done, hdone, halike, hcontent⟩ := process_eq hr hdry hfirst
      -- The other files have the content that they had.
      have hother : ∀ x, x ≠ (ending task).place →
          done.files.content? x = tally.files.content? x := by
        intro x hx
        rw [hcontent, Ending.content?]
        cases (ending task).text? with
        | none => rfl
        | some code => exact if_neg hx
      have hlater : ∀ other ∈ tasks,
          EndsAlone r (tally.add done (ending task).outcome).files here other (ending other) := by
        intro other hmem
        refine (hrest other hmem).congr halike (hother _ fun heq => hplaces.1 ?_)
        exact List.mem_map.2 ⟨other, hmem, heq⟩
      obtain ⟨after, hafter, houtcomes, hall⟩ := ih _ hlater hplaces.2
      refine ⟨after, ?_, ?_, fun x => ?_⟩
      · rw [Runner.processAll, hdone]
        exact hafter
      · rw [houtcomes, Tally.add, List.append_assoc, List.map_cons]
        rfl
      · rw [hall, given?_cons]
        change (Option.map _ _).or (done.files.content? x) = _
        by_cases hx : (ending task).place = x
        · subst hx
          have hnone : given? ending tasks (ending task).place = none := by
            rw [given?, List.find?_eq_none.2, Option.bind_none]
            intro other hmem heq
            exact hplaces.1 (List.mem_map.2 ⟨other, hmem, of_decide_eq_true heq⟩)
          rw [hnone, if_pos rfl, Option.map_none, Option.none_or, hcontent, Ending.content?]
          cases (ending task).text? with
          | none => rfl
          | some code => exact if_pos rfl
        · rw [if_neg hx, hother x (Ne.symm hx)]

/-- The text that is given to the file at a place is that of the file of the batch at this place. -/
theorem given?_eq_some_iff {ending : Task → Ending} {tasks : List Task}
    (hplaces : (tasks.map fun task => (ending task).place).Nodup) {x : List String}
    {code : String} :
    given? ending tasks x = some code ↔
      ∃ task ∈ tasks, (ending task).place = x ∧ (ending task).text? = some code := by
  induction tasks with
  | nil => exact iff_of_false nofun nofun
  | cons task tasks ih =>
      rw [List.map_cons, List.nodup_cons] at hplaces
      rw [given?_cons]
      simp only [List.mem_cons, exists_eq_or_imp]
      split
      · next hx =>
        refine ⟨fun htext => .inl ⟨hx, htext⟩, ?_⟩
        rintro (⟨-, htext⟩ | ⟨other, hmem, hplace, -⟩)
        · exact htext
        · exact absurd (List.mem_map.2 ⟨other, hmem, hplace.trans hx.symm⟩) hplaces.1
      · next hx =>
        rw [ih hplaces.2]
        exact ⟨.inr, fun h => h.resolve_left fun hfirst => hx hfirst.1⟩

/-! ## Runs -/

/-- The trees that the texts of the files get fit them, and matches in them do not touch. -/
def Runner.TreesFit (r : Runner) (files : FileTree) : Prop :=
  ∀ x bytes text root, files.content? x = some bytes → Text.decode? bytes = some text →
    r.grammar.parse (Path.absolute x) (Text.encode text) = .ok root →
    Sanitizer.Fitting (Text.encode text) root ∧
      Sanitizer.MatchesApart (Text.encode text) r.sanitizer root

/-- The stack has room for the trees that the texts of the files get. -/
def Runner.HasRoom (r : Runner) (files : FileTree) : Prop :=
  ∀ x bytes text root, files.content? x = some bytes → Text.decode? bytes = some text →
    r.grammar.parse (Path.absolute x) (Text.encode text) = .ok root →
    r.room.Suffices (Text.encode text) root

/-- A discovered file of a tree without links ends somehow by itself. -/
theorem exists_endsAlone (hwell : files.WellNamed) (hfree : files.LinkFree)
    (hfit : r.TreesFit files) (hroom : r.HasRoom files) (here : List String) {m : Path.Matcher}
    {task : Task} (htask : task ∈ tasks r.settings files m) :
    ∃ e, EndsAlone r files here task e ∧ task.path = Path.absolute e.place := by
  obtain ⟨names, hfound⟩ := discovered_of_mem_tasks hwell htask
  obtain ⟨bytes, hbytes⟩ : ∃ bytes, files.content? (m.root ++ names) = some bytes := by
    obtain ⟨entry, hentry, hshape⟩ := hfound.entry
    cases entry with
    | file bytes => exact ⟨bytes, FileTree.content?_eq_some.2 hentry⟩
    | link target =>
        refine absurd ?_ (hfree.shape?_ne (m.root ++ names) target)
        rw [FileTree.shape?, hentry]
        rfl
    | folder _ => exact absurd rfl hshape
  have hplace : files.locate here task.path = .ok (m.root ++ names) := by
    rw [hfound.path]
    exact FileTree.locate_absolute hwell (FileTree.content?_eq_some.1 hbytes)
      (by simp [Entry.shape]) here
  obtain ⟨outcome, text?, hending⟩ :=
    Own.exists_ending (g := r.grammar) (o := r.own task bytes) fun text root htext hroot =>
      have hparsed := hfound.path ▸ hroot
      ⟨hfit (m.root ++ names) bytes text root hbytes htext hparsed,
        hroom (m.root ++ names) bytes text root hbytes htext hparsed⟩
  exact ⟨⟨_, outcome, text?⟩, ⟨hplace, bytes, hbytes, hending⟩, hfound.path⟩

/-- The discovered files of a tree without links end somehow by themselves, at different places. -/
theorem exists_endings (hwell : files.WellNamed) (hfree : files.LinkFree) (hfit : r.TreesFit files)
    (hroom : r.HasRoom files) (here : List String) (m : Path.Matcher) :
    ∃ ending : Task → Ending, (∀ task ∈ tasks r.settings files m,
        EndsAlone r files here task (ending task) ∧
          task.path = Path.absolute (ending task).place) ∧
      ((tasks r.settings files m).map fun task => (ending task).place).Nodup := by
  have hends : ∀ task, ∃ e, task ∈ tasks r.settings files m →
      EndsAlone r files here task e ∧ task.path = Path.absolute e.place := by
    intro task
    by_cases htask : task ∈ tasks r.settings files m
    · obtain ⟨e, he⟩ := exists_endsAlone hwell hfree hfit hroom here htask
      exact ⟨e, fun _ => he⟩
    · exact ⟨⟨[], .skipped "", none⟩, fun h => absurd h htask⟩
  obtain ⟨ending, hending⟩ := Classical.skolem.1 hends
  refine ⟨ending, hending, ?_⟩
  -- Files at one place have one path, and no path is discovered twice.
  refine List.Nodup.of_map Path.absolute ?_
  rw [List.map_map]
  refine (List.map_congr_left fun task htask => ?_) ▸ nodup_tasks hwell
  exact (hending task htask).2

/-- A run that processes all files ends with what they came to. -/
theorem runHolding_eq (held : List Outcome) {root : String} (hroot : files.leads here root = true)
    {place : List String} {found : List Task}
    (hdiscover : r.discover files here root = .ok (place, found)) {after : Tally}
    (hafter : r.processAll here (r.start files place found) found = (after, none)) :
    r.runHolding held files here root =
      ⟨after.files, after.notices ++ [.finished after.stats], after.outcomes, .ok after.stats⟩ := by
  simp only [Runner.runHolding, hroot, Bool.not_true, Bool.false_eq_true, if_false, hdiscover,
    hafter]

/-- **Files are isolated from each other** in a run over a tree without links that writes what it
sanitizes, on a stack that has room for all of them. Each discovered file ends as told by its path,
its exclusion, its bytes and whether it may be read and written to. A file is given the sanitized
text if it is discovered, not excluded, readable, a text that is sanitized to another one, and
writable; every other file has the content that it had. -/
theorem isolated_run (hr : r.Undisturbed) (hdry : r.dryRun = false) (hwell : files.WellNamed)
    (hfree : files.LinkFree) (hfit : r.TreesFit files) (hroom : r.HasRoom files) {root : String}
    (hroot : files.leads here root = true) (held : List Outcome) :
    match r.discover files here root with
    | .error e => r.runHolding held files here root = ⟨files, [], held, .error e⟩
    | .ok (_, tasks) =>
      let ended := r.runHolding held files here root
      (∃ stats, ended.result = .ok stats) ∧ files.Alike ended.files ∧
      List.Forall₂ (fun task outcome => ∃ x bytes text?, task.path = Path.absolute x ∧
        files.content? x = some bytes ∧
        (r.own task bytes).ending r.grammar r.sanitizer r.room = .ok (outcome, text?))
        tasks ended.held ∧
      ∀ x,
        (∀ task ∈ tasks, ∀ bytes code, task.path = Path.absolute x →
          files.content? x = some bytes →
          (r.own task bytes).Rewritten r.grammar r.sanitizer r.room code →
          ended.files.content? x = some (Text.encode code)) ∧
        ((∀ task ∈ tasks, ∀ bytes code, task.path = Path.absolute x →
          files.content? x = some bytes →
          ¬ (r.own task bytes).Rewritten r.grammar r.sanitizer r.room code) →
          ended.files.content? x = files.content? x) := by
  split
  · next e hdiscover =>
    simp only [Runner.runHolding, hroot, Bool.not_true, Bool.false_eq_true, if_false, hdiscover]
  next place found hdiscover =>
  obtain ⟨m, -, -, rfl⟩ := discover_eq_ok_iff.1 hdiscover
  obtain ⟨ending, hending, hplaces⟩ := exists_endings hwell hfree hfit hroom here m
  obtain ⟨after, hafter, houtcomes, hcontent⟩ :=
    processAll_eq hr hdry (r.start files place (tasks r.settings files m))
      (fun task htask => (hending task htask).1) hplaces
  have hcontent : ∀ x, after.files.content? x =
      ((given? ending (tasks r.settings files m) x).map Text.encode).or (files.content? x) :=
    hcontent
  have hended := runHolding_eq held hroot hdiscover hafter
  have halike := (keeps_runHolding hr held files here root).alike
  rw [hended] at halike ⊢
  refine ⟨⟨_, rfl⟩, halike, ?_, fun x => ⟨?_, ?_⟩⟩
  · rw [houtcomes]
    refine List.forall₂_map_right_iff.2 (List.forall₂_same.2 fun task htask => ?_)
    obtain ⟨⟨-, bytes, hbytes, hown⟩, hpath⟩ := hending task htask
    exact ⟨_, bytes, _, hpath, hbytes, hown⟩
  · intro task htask bytes code hpath hbytes hrewritten
    obtain ⟨⟨-, bytes', hbytes', hown⟩, hpath'⟩ := hending task htask
    have hplace : (ending task).place = x :=
      Path.absolute_inj (hwell.isName (FileTree.content?_eq_some.1 hbytes'))
        (hwell.isName (FileTree.content?_eq_some.1 hbytes)) (hpath'.symm.trans hpath)
    rw [hplace, hbytes] at hbytes'
    cases hbytes'
    have htext : (ending task).text? = some code := (Own.ending_text hown code).2 hrewritten
    rw [hcontent, (given?_eq_some_iff hplaces).2 ⟨task, htask, hplace, htext⟩]
    rfl
  · intro hnone
    have hleft : given? ending (tasks r.settings files m) x = none := by
      refine Option.eq_none_iff_forall_ne_some.2 fun code hcode => ?_
      obtain ⟨task, htask, rfl, htext⟩ := (given?_eq_some_iff hplaces).1 hcode
      obtain ⟨⟨-, bytes, hbytes, hown⟩, hpath⟩ := hending task htask
      exact hnone task htask bytes code hpath hbytes ((Own.ending_text hown code).1 htext)
    rw [hcontent, hleft]
    rfl

end

/-! ## A run over a single script -/

/-- A folder with one script. -/
def singleScript : FileTree := ⟨[("a.js", .file (Text.encode "f//"))]⟩

/-- The script is all that is in the folder. -/
theorem content?_singleScript {x : List String} {bytes : Bytes}
    (h : singleScript.content? x = some bytes) : x = ["a.js"] ∧ bytes = Text.encode "f//" := by
  have hflat : ∀ p ∈ singleScript.entries, ∃ bytes, p.2 = .file bytes :=
    List.forall_mem_singleton.2 ⟨_, rfl⟩
  obtain ⟨name, rfl, hmem⟩ := FileTree.mem_of_content? hflat h
  obtain ⟨rfl, hbytes⟩ := Prod.mk.inj (List.mem_singleton.1 hmem)
  exact ⟨rfl, Entry.file.inj hbytes⟩

/-- The tree of the script fits it. -/
theorem treesFit_singleScript : usualRunner.TreesFit singleScript := by
  intro x bytes text root hbytes htext hroot
  obtain ⟨rfl, rfl⟩ := content?_singleScript hbytes
  have hdecoded : Text.decode? (Text.encode "f//") = some "f//" := by decide +kernel
  rw [hdecoded] at htext
  cases htext
  have hall : ((usualRunner.grammar.parse (Path.absolute ["a.js"]) (Text.encode "f//")).toOption.all
      fun root => decide (root.WellNested ∧ root.stop ≤ (Text.encode "f//").length ∧
        (∀ n ∈ root.preorder, Text.OnBoundary (Text.encode "f//") n.start ∧
          Text.OnBoundary (Text.encode "f//") n.stop) ∧
        ((Sanitizer.editsOf (Text.encode "f//") usualRunner.sanitizer root).map
          (·.toEdit)).IsChain (Edit.Separated (Text.encode "f//")))) = true := by decide +kernel
  rw [hroot] at hall
  obtain ⟨hnested, hinside, hbetween, hapart⟩ := of_decide_eq_true hall
  exact ⟨⟨hnested, hinside, hbetween⟩, hapart⟩

/-- The script is given its sanitized text. -/
theorem isolated_run_singleScript :
    (usualRunner.runHolding [] singleScript [] "/").files.content? ["a.js"] =
      some (Text.encode "f") := by
  have hplace := singleScript.resolve_root []
  have hleads := singleScript.leads_root []
  obtain ⟨m, -, -, -, hdiscover⟩ := discover_usualRunner
  have hrun := isolated_run (fun _ _ => rfl) rfl (by decide +kernel) (by decide +kernel)
    treesFit_singleScript (fun _ _ _ _ _ _ _ => Scope.Room.suffices_endless _ _) hleads []
  rw [hdiscover singleScript hplace rfl] at hrun
  obtain ⟨-, -, -, hcontents⟩ := hrun
  refine (hcontents ["a.js"]).1 ⟨"/a.js", false⟩ List.mem_cons_self (Text.encode "f//") "f"
    (by decide +kernel) rfl ⟨rfl, rfl, ⟨"f//", ⟨"f", 0, 1⟩, by decide +kernel, by decide +kernel,
      rfl, by decide⟩, rfl⟩

/-! ## A run that breaks down -/

/-- **A run ends with the first file that breaks down**: nothing becomes of the files behind it. -/
theorem runHolding_of_breakdown {r : Runner} {files : FileTree} {here : List String} {root : String}
    (hroot : files.leads here root = true) {place : List String} {task : Task} {later : List Task}
    (hdiscover : r.discover files here root = .ok (place, task :: later))
    {e : Sanitizer.Breakdown} (hbreak : r.process files here task = .error e)
    (held : List Outcome) :
    (r.runHolding held files here root).files = files ∧
      (r.runHolding held files here root).result = .error (.breakdown e) := by
  have hall : r.processAll here (r.start files place (task :: later)) (task :: later) =
      (r.start files place (task :: later), some e) := by
    rw [Runner.processAll, show (r.start files place (task :: later)).files = files from rfl,
      hbreak]
  simp only [Runner.runHolding, hroot, Bool.not_true, Bool.false_eq_true, if_false, hdiscover, hall]
  exact ⟨rfl, trivial⟩

/-- A grammar that knows one more script, by its length. -/
def deepGrammar (levels : Nat) : Grammar := fun dialect source =>
  if source.length = 2 * levels + 29 then .ok (Sanitizer.deepTree levels)
  else Script.grammar dialect source

/-- A runner on the usual stack. -/
def boundedRunner (levels : Nat) : Runner := { grammar := deepGrammar levels, room := .usual }

/-- A folder with a script that takes many calls, and with a small one. -/
def deepBeside (levels : Nat) : FileTree :=
  ⟨[("a.js", .file (Text.encode (Sanitizer.deepScript levels))),
    ("b.js", .file (Text.encode "f//"))]⟩

/-- What the paths of the folder and of the scripts in it spell, in their order. -/
theorem spelled_deepBeside :
    (Path.absolute ["a.js"] = "/a.js" ∧ Path.absolute ["b.js"] = "/b.js") ∧
    (Path.IsName "a.js" ∧ Path.IsName "b.js") ∧
    Dialect.ofPath? "/a.js" = some .javascript ∧
    (["/a.js", "/b.js"].Pairwise fun a b => decide (a ≤ b) = true) ∧
    isExcluded {} "/a.js" = false ∧ isExcluded {} "/b.js" = false := by decide +kernel

section
variable (levels : Nat)

/-- The first script gets its tree. -/
theorem parse_deepScript :
    (deepGrammar levels).parse "/a.js" (Text.encode (Sanitizer.deepScript levels)) =
      .ok (Sanitizer.deepTree levels) := by
  have hdialect := spelled_deepBeside.2.2.1
  have htree : deepGrammar levels .javascript (Text.encode (Sanitizer.deepScript levels)) =
      .ok (Sanitizer.deepTree levels) := if_pos (Sanitizer.ascii_deepScript levels).2
  rw [Grammar.parse_eq_of_tree hdialect htree, Sanitizer.hasError_deepTree,
    if_neg Bool.false_ne_true]

-- The grammar of scripts gives the same tree, as here for two pairs of brackets.
example : (Script.grammar .javascript (Text.encode (Sanitizer.deepScript 2))).toOption.any
    (fun root =>
      let spell := fun root : Node => root.preorder.map fun n => (n.kind, n.field)
      let shape := fun root : Node => root.preorder.map fun n =>
        (n.start, n.stop, n.children.length)
      spell root = spell (Sanitizer.deepTree 2) ∧ shape root = shape (Sanitizer.deepTree 2)) =
    true := by
  decide +kernel

/-- The folder is in order and without links. -/
theorem ordered_deepBeside : (deepBeside levels).WellNamed ∧ (deepBeside levels).LinkFree := by
  have hnames := spelled_deepBeside.2.1
  refine ⟨Entry.wellNamed_folder.2 ⟨show ["a.js", "b.js"].Nodup by decide, ?_⟩,
    Entry.linkCount_folder.2 ?_⟩
  · exact List.forall_mem_cons.2 ⟨⟨hnames.1, rfl⟩, List.forall_mem_cons.2 ⟨⟨hnames.2, rfl⟩, nofun⟩⟩
  · exact List.forall_mem_cons.2 ⟨rfl, List.forall_mem_cons.2 ⟨rfl, nofun⟩⟩

/-- Both scripts are discovered. -/
theorem discover_deepBeside :
    (boundedRunner levels).discover (deepBeside levels) [] "/" =
      .ok ([], [⟨"/a.js", false⟩, ⟨"/b.js", false⟩]) := by
  obtain ⟨m, hm, hroot, hfirst, hsecond⟩ : ∃ m, matcher {} [] = .ok m ∧
      m.root = [] ∧ isCandidate {} m ["a.js"] = true ∧ isCandidate {} m ["b.js"] = true := by
    have hall : ((matcher {} []).toOption.any fun m => m.root = [] ∧
        isCandidate {} m ["a.js"] = true ∧ isCandidate {} m ["b.js"] = true) = true := by
      decide +kernel
    cases hm : matcher {} [] with
    | error e =>
        rw [hm] at hall
        cases hall
    | ok m =>
        rw [hm] at hall
        exact ⟨m, rfl, by simpa [Except.toOption] using hall⟩
  have hplace := (deepBeside levels).resolve_root []
  have hfound : (deepBeside levels).namesBelow (isEntered m) [] = [["a.js"], ["b.js"]] := by
    simp [FileTree.namesBelow, FileTree.get?, FileTree.root, Entry.get?, deepBeside,
      Entry.namesAmong, Entry.namesAt, Entry.children]
  refine discover_eq_ok_iff.2 ⟨m, hplace, hm, ?_⟩
  change _ = tasks {} _ _
  rw [tasks, hroot, hfound, List.filter_cons_of_pos hfirst, List.filter_cons_of_pos hsecond,
    List.filter_nil]
  simp only [List.map_cons, List.map_nil, List.nil_append]
  obtain ⟨⟨hfirst, hsecond⟩, -, -, hsorted, hincluded⟩ := spelled_deepBeside
  rw [hfirst, hsecond, List.mergeSort_of_pairwise hsorted]
  simp only [List.map_cons, List.map_nil, hincluded]

/-- The first script can be read. -/
theorem read_deepBeside : (boundedRunner levels).read (deepBeside levels) [] "/a.js" =
    .ok (Text.encode (Sanitizer.deepScript levels)) := by
  have hentry : (deepBeside levels).get? ["a.js"] =
      some (.file (Text.encode (Sanitizer.deepScript levels))) := rfl
  have hplace := FileTree.locate_absolute (ordered_deepBeside levels).1 hentry nofun []
  rw [spelled_deepBeside.1.1] at hplace
  exact FileTree.read_of_locate hplace (FileTree.content?_eq_some.2 hentry)

/-- **The first script breaks the run down** if it is deeper than the stack. -/
theorem process_deepBeside (h : 970 ≤ levels) :
    (boundedRunner levels).process (deepBeside levels) [] ⟨"/a.js", false⟩ =
      .error .stackOverflow := by
  have hover : Sanitizer.sanitizeWith (deepGrammar levels) (deepGrammar levels) {}
      ((Sanitizer.deepScript levels).toList.map (·.toNat)) "/a.js" .usual =
        .error .stackOverflow :=
    Sanitizer.sanitizeBy_deepScript _ (parse_deepScript levels) h
  rw [process_of_read rfl (read_deepBeside levels), Runner.rewrite]
  simp only [boundedRunner, hover]

/-- The two scripts are all that is in the folder. -/
theorem content?_deepBeside {x : List String} {bytes : Bytes}
    (h : (deepBeside levels).content? x = some bytes) :
    x = ["a.js"] ∧ bytes = Text.encode (Sanitizer.deepScript levels) ∨
      x = ["b.js"] ∧ bytes = Text.encode "f//" := by
  have hflat : ∀ p ∈ (deepBeside levels).entries, ∃ bytes, p.2 = .file bytes :=
    List.forall_mem_cons.2 ⟨⟨_, rfl⟩, List.forall_mem_singleton.2 ⟨_, rfl⟩⟩
  obtain ⟨name, rfl, hmem⟩ := FileTree.mem_of_content? hflat h
  rcases List.mem_cons.1 hmem with heq | hmem
  · obtain ⟨rfl, hbytes⟩ := Prod.mk.inj heq
    exact .inl ⟨rfl, Entry.file.inj hbytes⟩
  · obtain ⟨rfl, hbytes⟩ := Prod.mk.inj (List.mem_singleton.1 hmem)
    exact .inr ⟨rfl, Entry.file.inj hbytes⟩

/-- The trees of both fit them if that of the second one does. -/
theorem treesFit_deepBeside
    (hbeside : ∀ root, (deepGrammar levels).parse "/b.js" (Text.encode "f//") = .ok root →
      Sanitizer.Fitting (Text.encode "f//") root ∧
        Sanitizer.MatchesApart (Text.encode "f//") {} root) :
    (boundedRunner levels).TreesFit (deepBeside levels) := by
  obtain ⟨hfirst, hsecond⟩ := spelled_deepBeside.1
  intro x bytes text root hbytes htext hroot
  rcases content?_deepBeside levels hbytes with ⟨rfl, rfl⟩ | ⟨rfl, rfl⟩ <;>
    rw [Text.decode?_encode] at htext <;> cases htext
  · rw [hfirst] at hroot
    obtain rfl := Except.ok.inj ((parse_deepScript levels).symm.trans hroot)
    exact ⟨Sanitizer.fitting_deepTree levels, Sanitizer.matchesApart_deepTree _ {} levels⟩
  · rw [hsecond] at hroot
    exact hbeside root hroot

end

/-- The second script gets a tree that fits it and the stack, and is sanitized to another text. -/
theorem sanitized_besideDeep :
    (∀ root, (deepGrammar 1000).parse "/b.js" (Text.encode "f//") = .ok root →
      (Sanitizer.Fitting (Text.encode "f//") root ∧
        Sanitizer.MatchesApart (Text.encode "f//") {} root) ∧
        Scope.Room.usual.Suffices (Text.encode "f//") root) ∧
    Sanitizer.sanitizeWith (deepGrammar 1000) (deepGrammar 1000) {} ("f//".toList.map (·.toNat))
      "/b.js" .usual = .ok (.ok ⟨"f", 0, 1⟩) := by
  obtain ⟨hall, hendless⟩ : ((deepGrammar 1000).parse "/b.js" (Text.encode "f//")).toOption.all
      (fun root => decide ((root.WellNested ∧ root.stop ≤ (Text.encode "f//").length ∧
        (∀ n ∈ root.preorder, Text.OnBoundary (Text.encode "f//") n.start ∧
          Text.OnBoundary (Text.encode "f//") n.stop) ∧
        ((Sanitizer.editsOf (Text.encode "f//") {} root).map (·.toEdit)).IsChain
          (Edit.Separated (Text.encode "f//"))) ∧
        Scope.Room.usual.Suffices (Text.encode "f//") root)) = true ∧
      Sanitizer.sanitizeWith (deepGrammar 1000) (deepGrammar 1000) {} ("f//".toList.map (·.toNat))
        "/b.js" = .ok (.ok ⟨"f", 0, 1⟩) := by decide +kernel
  have hfits : ∀ root, (deepGrammar 1000).parse "/b.js" (Text.encode "f//") = .ok root →
      (Sanitizer.Fitting (Text.encode "f//") root ∧
        Sanitizer.MatchesApart (Text.encode "f//") {} root) ∧
        Scope.Room.usual.Suffices (Text.encode "f//") root := by
    intro root hroot
    rw [hroot] at hall
    obtain ⟨⟨hnested, hinside, hbetween, hapart⟩, hroom⟩ := of_decide_eq_true hall
    exact ⟨⟨⟨hnested, hinside, hbetween⟩, hapart⟩, hroom⟩
  refine ⟨hfits, ?_⟩
  rcases Sanitizer.sanitizeBy_overflows_or_eq .usual with hover | heq
  · obtain ⟨-, source, root, hsource, hroot, hsmall⟩ := hover
    rw [Text.encode?_toNat] at hsource
    cases hsource
    exact absurd (hfits root hroot).2 hsmall
  · exact heq.trans hendless

/-- **A script breaks a whole run down**: its tree fits it, as that of the script beside it does,
but the usual stack has no room for it, so the run has no counters, and the other script does not
get the text that it is sanitized to by itself. -/
theorem deepScript_breaks_run :
    let r := boundedRunner 1000
    let files := deepBeside 1000
    let ended := r.runHolding [] files [] "/"
    (r.Undisturbed ∧ r.dryRun = false ∧ files.WellNamed ∧ files.LinkFree ∧ r.TreesFit files ∧
      files.leads [] "/" = true) ∧
    r.discover files [] "/" = .ok ([], [⟨"/a.js", false⟩, ⟨"/b.js", false⟩]) ∧
    files.content? ["b.js"] = some (Text.encode "f//") ∧
    (r.own ⟨"/b.js", false⟩ (Text.encode "f//")).Rewritten r.grammar r.sanitizer r.room "f" ∧
    ended.result = .error (.breakdown .stackOverflow) ∧
      ended.files.content? ["b.js"] = some (Text.encode "f//") := by
  obtain ⟨hwell, hfree⟩ := ordered_deepBeside 1000
  obtain ⟨hfiles, hresult⟩ := runHolding_of_breakdown (FileTree.leads_root _ [])
    (discover_deepBeside 1000) (process_deepBeside 1000 (by decide)) []
  have hbeside : (deepBeside 1000).content? ["b.js"] = some (Text.encode "f//") := rfl
  have hfit := treesFit_deepBeside 1000 fun root hroot => (sanitized_besideDeep.1 root hroot).1
  refine ⟨⟨fun _ _ => rfl, rfl, hwell, hfree, hfit, FileTree.leads_root _ []⟩,
    discover_deepBeside 1000, hbeside,
    ⟨rfl, rfl, ⟨"f//", _, Text.decode?_encode _, sanitized_besideDeep.2, rfl, by decide⟩, rfl⟩,
    hresult, ?_⟩
  rw [hfiles, hbeside]

end Batch

end ScriptScrub
