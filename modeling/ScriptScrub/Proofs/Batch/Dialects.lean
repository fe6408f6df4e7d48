import ScriptScrub.Proofs.Batch.Accounting
import ScriptScrub.Proofs.Batch.NoOutput
import ScriptScrub.Proofs.Batch.Selection
import ScriptScrub.Proofs.Text.LetterCase

/-!
# Dialects of discovered files

A batch takes a file for the end of its name, and the parser for the suffix of it. If the extensions
of a batch are suffixes of scripts, the two differ in one point only: a name that is nothing but an
extension has no suffix (`Dialect.lookup_suffixOf_eq_none_iff`). So the discovered files have a
dialect, and none is reported as unsupported, except for those with such a name
(`discovered_has_dialect`, `unsupported_discovered`). If dotfiles are ignored there are none.
-/

namespace ScriptScrub

namespace Path

/-- **The suffix of a name** with a last dot, unless nothing stands before it. -/
theorem suffixOf_eq {name : String} {first rest : List Char}
    (hname : name.toList = first ++ '.' :: rest) (hdot : '.' ∉ rest) (hrest : rest ≠ []) :
    suffixOf name = if first = [] then "" else String.ofList ('.' :: rest) := by
  have hafter : (name.toList.reverse.takeWhile (· != '.')).reverse = rest := by
    have hall : ∀ c ∈ rest.reverse, (c != '.') = true := by
      intro c hc
      rw [bne_iff_ne]
      rintro rfl
      exact hdot (List.mem_reverse.1 hc)
    rw [hname, List.reverse_append, List.reverse_cons, List.append_assoc,
      List.takeWhile_append_of_pos hall]
    simp
  have hlength : rest.length + 1 < name.toList.length ↔ first ≠ [] := by
    rw [hname, List.length_append, List.length_cons, ← List.length_pos_iff]
    omega
  simp only [suffixOf, hafter, hlength, and_iff_left hrest, ite_not]

/-- The last component of an absolute path is the last of its names. -/
theorem name_absolute {names : List String} (h : ∀ n ∈ names, IsName n) :
    name (absolute names) = names.getLastD "" := by
  rw [name, parts_absolute h]

end Path

namespace Dialect

/-- The text is the suffix of a script, in any letter case. -/
def IsSuffix (text : String) : Prop := Text.lower text ∈ suffixes.map (·.1)

instance (text : String) : Decidable (IsSuffix text) := inferInstanceAs (Decidable (_ ∈ _))

/-- The suffixes of scripts have a dialect, and a single dot, with which they begin. -/
theorem exists_of_mem_suffixes {s : String} (h : s ∈ suffixes.map (·.1)) :
    ∃ t, s.toList = '.' :: t ∧ '.' ∉ t ∧ t ≠ [] ∧ ∃ d, suffixes.lookup s = some d := by
  have hall : ∀ s ∈ suffixes.map (·.1), s.toList.head? = some '.' ∧ '.' ∉ s.toList.tail ∧
      s.toList.tail ≠ [] ∧ (suffixes.lookup s).isSome = true := by decide +kernel
  obtain ⟨hhead, hdot, hne, hlookup⟩ := hall s h
  obtain ⟨t, ht⟩ := List.head?_eq_some_iff.1 hhead
  rw [ht] at hdot hne
  exact ⟨t, ht, hdot, hne, Option.isSome_iff_exists.1 hlookup⟩

/-- A suffix begins with a dot. -/
theorem IsSuffix.isDotted {text : String} (h : IsSuffix text) : Path.IsDotted text := by
  obtain ⟨t, ht, -⟩ := exists_of_mem_suffixes h
  rw [Text.lower, String.toList_ofList] at ht
  have hhead : (Text.lowerAfter false text.toList).head? = some '.' := by rw [ht, List.head?_cons]
  exact Text.head?_of_lowerAfter (by decide) hhead

/-- **A name that ends in a suffix** has a dialect by it, unless it is nothing else. -/
theorem lookup_suffixOf_eq_none_iff {name e : String} (he : IsSuffix e)
    (hends : (Text.lower e).toList <:+ (Text.lower name).toList) :
    suffixes.lookup (Text.lower (Path.suffixOf name)) = none ↔ IsSuffix name := by
  obtain ⟨t, ht, hdot, hne, d, hd⟩ := exists_of_mem_suffixes he
  obtain ⟨before, hbefore⟩ := hends
  rw [ht, Text.lower, String.toList_ofList] at hbefore
  obtain ⟨first, rest, hname, hrest, hfirst⟩ :=
    Text.exists_of_lowerAfter_eq_append (by decide) hbefore.symm
  have hcased : Text.isCased '.' = false := by decide +kernel
  rw [hcased] at hrest
  have hdot' : '.' ∉ rest := fun hmem => hdot (hrest ▸ Text.dot_mem_lowerAfter hmem)
  have hne' : rest ≠ [] := by
    rintro rfl
    exact hne hrest.symm
  rw [Path.suffixOf_eq hname hdot' hne']
  rcases eq_or_ne before [] with rfl | hsome
  · have hsame : Text.lower name = Text.lower e := by
      rw [← String.toList_inj, ht, Text.lower, String.toList_ofList, ← hbefore, List.nil_append]
    rw [if_pos (hfirst.1 rfl)]
    exact iff_of_true (by decide +kernel) (by rwa [IsSuffix, hsame])
  · have hsuffix : Text.lower (String.ofList ('.' :: rest)) = Text.lower e := by
      rw [← String.toList_inj, ht, Text.lower, String.toList_ofList, String.toList_ofList,
        Text.lowerAfter_dot, hrest]
    rw [if_neg (mt hfirst.2 hsome), hsuffix, hd]
    refine iff_of_false nofun fun hname => ?_
    -- A suffix has its dot in front, so there would be another one in it.
    obtain ⟨t', ht', hdot'', -⟩ := exists_of_mem_suffixes hname
    rw [Text.lower, String.toList_ofList, ← hbefore] at ht'
    obtain ⟨c, before, rfl⟩ := List.exists_cons_of_ne_nil hsome
    rw [List.cons_append] at ht'
    exact hdot'' ((List.cons.inj ht').2 ▸ List.mem_append_right _ (.head _))

end Dialect

namespace Sanitizer

variable {first again : Grammar} {settings : Config.SanitizerSettings} {path : String}

/-- **The text of a file without a dialect** is not looked at. -/
theorem sanitizeWith_of_noDialect (h : Dialect.ofPath? path = none) (text : String)
    (room : Scope.Room) :
    sanitizeWith first again settings (text.toList.map (·.toNat)) path room =
      .ok (.error ⟨path, .unsupportedType (Path.suffix path), none⟩) := by
  rw [sanitizeWith, sanitizeBy, Text.encode?_toNat]
  dsimp only [Grammar.parse]
  rw [h]

/-- **Sanitizing does not support a file** only if it has no dialect. -/
theorem noDialect_of_unsupported {text : List CodePoint} {failure : Failure} {room : Scope.Room}
    (h : sanitizeWith first again settings text path room = .ok (.error failure))
    (hkind : failure.cause.kind = .unsupported) : Dialect.ofPath? path = none := by
  rcases failure_of_sanitizeWith h with rfl | ⟨_, hfirst⟩ | ⟨_, _, hcheck⟩
  · cases hkind
  · rcases (Grammar.failure_of_parse hfirst).2 with ⟨hnone, -⟩ | ⟨-, hparse⟩
    · exact hnone
    · rw [hkind] at hparse
      cases hparse
  · rcases failure_of_checkOutput hcheck with ⟨-, rfl⟩ | ⟨e, rfl⟩ <;> cases hkind

end Sanitizer

namespace Batch

open Config (BatchSettings)

/-- The file is reported as one of a type that is not supported. -/
def Outcome.IsUnsupported (o : Outcome) : Prop :=
  ∃ failure, o.failure? = some failure ∧ failure.report.kind = .unsupported

section
variable {r : Runner} {files : FileTree} {here : List String} {task : Task}

variable (r files here task) in
/-- The file holds a text that can be read. -/
def HoldsText : Prop :=
  ∃ content, r.read files here task.path = .ok content ∧ (Text.decode? content).isSome = true

/-- **A file is reported as unsupported** exactly if it is not excluded, holds a text and has no
dialect. -/
theorem isUnsupported_iff_of_process {done : Progress} {outcome : Outcome}
    (h : r.process files here task = .ok (done, outcome)) :
    outcome.IsUnsupported ↔
      task.excluded = false ∧ HoldsText r files here task ∧ Dialect.ofPath? task.path = none := by
  constructor
  · rintro ⟨failure, hfailure, hkind⟩
    rw [Failure.report] at hkind
    obtain ⟨hx, ⟨_, hcause⟩ | ⟨content, text, hread, hdecode, hrewrite⟩⟩ :=
      failure_of_process h hfailure
    · rw [hcause] at hkind
      cases hkind
    · refine ⟨hx, ⟨content, hread, by rw [hdecode]; rfl⟩, ?_⟩
      rcases failure_of_rewrite hrewrite hfailure with hsanitized | ⟨-, _, _, -, hcause⟩
      · exact Sanitizer.noDialect_of_unsupported hsanitized hkind
      · rw [hcause] at hkind
        cases hkind
  · rintro ⟨hx, ⟨content, hread, hsome⟩, hnone⟩
    obtain ⟨text, hdecode⟩ := Option.isSome_iff_exists.1 hsome
    rw [process_of_decode hx hread hdecode,
      rewrite_of_error (Sanitizer.sanitizeWith_of_noDialect hnone text _)] at h
    cases h
    exact ⟨_, rfl, rfl⟩

/-- **What is so of each file that is processed** is so of all outcomes of a run. -/
theorem forall_outcomes_processAll {P : Outcome → Prop} {tasks : List Task}
    (hprocess : ∀ task ∈ tasks, ∀ files done outcome,
      r.process files here task = .ok (done, outcome) → P outcome)
    {tally : Tally} (htally : ∀ o ∈ tally.outcomes, P o) :
    ∀ o ∈ (r.processAll here tally tasks).1.outcomes, P o := by
  induction tasks generalizing tally with
  | nil => exact htally
  | cons task tasks ih =>
      rw [List.forall_mem_cons] at hprocess
      rw [Runner.processAll]
      split
      · exact htally
      · next done outcome hdone =>
        refine ih hprocess.2 (List.forall_mem_append.2 ⟨htally, ?_⟩)
        exact List.forall_mem_singleton.2 (hprocess.1 _ _ _ hdone)

end

/-- The extensions are suffixes of scripts. -/
def HasSuffixes (settings : BatchSettings) : Prop := ∀ e ∈ settings.extensions, Dialect.IsSuffix e

instance (settings : BatchSettings) : Decidable (HasSuffixes settings) :=
  inferInstanceAs (Decidable (∀ e ∈ settings.extensions, _))

section
variable {settings : BatchSettings} {files : FileTree} {m : Path.Matcher} {task : Task}
  {names : List String}

/-- The name of a discovered file is the last name on the way to it. -/
theorem Discovered.name (h : Discovered settings files m task names) (hwell : files.WellNamed)
    (hext : HasSuffixes settings) : ∃ way, names = way ++ [Path.name task.path] := by
  have hne : names ≠ [] := by
    rintro rfl
    obtain ⟨e, he, hends⟩ := hasExtension_iff.1 h.hasExtension
    obtain ⟨t, ht, -⟩ := Dialect.exists_of_mem_suffixes (hext e he)
    rw [ht] at hends
    cases List.suffix_nil.1 hends
  obtain ⟨way, last, rfl⟩ := (List.eq_nil_or_concat names).resolve_left hne
  refine ⟨way, ?_⟩
  rw [h.path, Path.name_absolute (h.isName hwell), List.concat_eq_append, ← List.append_assoc,
    List.getLastD_concat]

/-- **A discovered file has no dialect** exactly if its name is nothing but a suffix. -/
theorem Discovered.noDialect_iff (h : Discovered settings files m task names)
    (hwell : files.WellNamed) (hext : HasSuffixes settings) :
    Dialect.ofPath? task.path = none ↔ Dialect.IsSuffix (Path.name task.path) := by
  obtain ⟨e, he, hends⟩ := hasExtension_iff.1 h.hasExtension
  obtain ⟨way, rfl⟩ := h.name hwell hext
  rw [List.getLastD_concat] at hends
  exact Dialect.lookup_suffixOf_eq_none_iff (hext e he) hends

end

/-- **Discovered files have a dialect** if the extensions of the batch are suffixes of scripts, in
any letter case, except for a file whose name is nothing but such a suffix. If dotfiles are ignored
there is none, unless their pattern was configured in another place or a name has a line break. So
processing a discovered file reports it as unsupported exactly if it has such a name, is not
excluded and holds a text, and a run reports no other file so. -/
theorem discovered_has_dialect {r : Runner} {files : FileTree} {here place : List String}
    {root : String} {found : List Task} (hwell : files.WellNamed)
    (hext : HasSuffixes r.settings) (hfound : r.discover files here root = .ok (place, found)) :
    (∀ task ∈ found, (Dialect.ofPath? task.path).isSome = true ↔
      ¬ Dialect.IsSuffix (Path.name task.path)) ∧
    (r.settings.ignoreDotfiles = true → Path.Matcher.dotfiles ∉ r.settings.ignoreGlobs →
      files.NamesHave (¬ Path.IsBroken ·) →
      ∀ task ∈ found, (Dialect.ofPath? task.path).isSome = true) ∧
    (∀ task ∈ found, ∀ now done outcome, r.process now here task = .ok (done, outcome) →
      (outcome.IsUnsupported ↔ task.excluded = false ∧ HoldsText r now here task ∧
        Dialect.IsSuffix (Path.name task.path))) ∧
    (files.leads here root = true → ∀ held, ∀ o ∈ (r.runHolding held files here root).held,
      o.IsUnsupported → ∃ task ∈ found, o.path = task.path ∧
        Dialect.IsSuffix (Path.name task.path)) := by
  obtain ⟨m, -, hm, rfl⟩ := discover_eq_ok_iff.1 hfound
  have hnone : ∀ task ∈ tasks r.settings files m,
      (Dialect.ofPath? task.path = none ↔ Dialect.IsSuffix (Path.name task.path)) := by
    intro task htask
    obtain ⟨names, hdiscovered⟩ := discovered_of_mem_tasks hwell htask
    exact hdiscovered.noDialect_iff hwell hext
  have hsome : ∀ task ∈ tasks r.settings files m, (Dialect.ofPath? task.path).isSome = true ↔
      ¬ Dialect.IsSuffix (Path.name task.path) := fun task htask => by
    rw [← hnone task htask, Option.isSome_iff_ne_none]
  have hprocess : ∀ task ∈ tasks r.settings files m, ∀ now done outcome,
      r.process now here task = .ok (done, outcome) →
      (outcome.IsUnsupported ↔ task.excluded = false ∧ HoldsText r now here task ∧
        Dialect.IsSuffix (Path.name task.path)) := fun task htask now done outcome h => by
    rw [isUnsupported_iff_of_process h, hnone task htask]
  refine ⟨hsome, fun hignore hdot hunbroken task htask => (hsome task htask).2 fun hsuffix => ?_,
    hprocess, fun hroot held => ?_⟩
  · rw [matcher, hignore] at hm
    obtain ⟨names, hdiscovered⟩ := discovered_of_mem_tasks hwell htask
    obtain ⟨way, rfl⟩ := hdiscovered.name hwell hext
    exact hdiscovered.not_isDotted hwell hunbroken hdot hm _ (by simp) hsuffix.isDotted
  · rw [(runHolding_of_discover held hroot hfound).2.1]
    refine forall_outcomes_processAll (fun task htask now done outcome h hunsupported => ?_) nofun
    exact ⟨task, htask, (processed_of_process h).tells.path,
      ((hprocess task htask now done outcome h).1 hunsupported).2.2⟩

/-- Where there is nothing below the root but one file that a runner takes, this is what it
discovers. -/
theorem discover_only {r : Runner} {name : String} {content : Bytes}
    (h : (matcher r.settings []).toOption.any (isCandidate r.settings · [name]) = true) :
    r.discover ⟨[(name, .file content)]⟩ [] "/" =
      .ok ([], [⟨Path.absolute [name], isExcluded r.settings (Path.absolute [name])⟩]) := by
  have hplace := FileTree.resolve_root ⟨[(name, .file content)]⟩ []
  cases hm : matcher r.settings [] with
  | error e =>
      rw [hm] at h
      cases h
  | ok m =>
      rw [hm] at h
      have hroot := root_of_matcher hm
      have hfound : FileTree.namesBelow ⟨[(name, .file content)]⟩ (isEntered m) [] = [[name]] := rfl
      refine discover_eq_ok_iff.2 ⟨m, hplace, hm, ?_⟩
      have htaken : isCandidate r.settings m [name] = true := h
      rw [tasks, hroot, hfound, List.filter_cons_of_pos htaken]
      simp

/-- A runner for scripts with markup, with one extension in capitals. -/
def markupRunner : Runner where
  settings := { extensions := [".JSX", ".tsx"] }
  grammar := fun _ _ => .error "no grammar"

/-- A script with markup. -/
def markupFiles : FileTree := ⟨[("View.Tsx", .file [])]⟩

/-- The script is discovered, and it has a dialect. -/
theorem discovered_has_dialect_markup :
    ∃ found, markupRunner.discover markupFiles [] "/" = .ok ([], found) ∧
      (∃ task ∈ found, task.path = "/View.Tsx") ∧
      ∀ task ∈ found, (Dialect.ofPath? task.path).isSome = true := by
  have hfound : markupRunner.discover markupFiles [] "/" = .ok ([], [⟨Path.absolute ["View.Tsx"],
      isExcluded markupRunner.settings (Path.absolute ["View.Tsx"])⟩]) :=
    discover_only (by decide +kernel)
  have hunbroken : markupFiles.NamesHave (¬ Path.IsBroken ·) :=
    Entry.namesHave_of_single rfl (by decide +kernel) (Entry.namesHave_of_empty rfl)
  have hwell : markupFiles.WellNamed := by decide +kernel
  obtain ⟨-, hdialect, -⟩ := discovered_has_dialect hwell (by decide +kernel) hfound
  exact ⟨_, hfound, ⟨_, .head _, by decide +kernel⟩, hdialect rfl (by decide +kernel) hunbroken⟩

/-- A runner that looks at dotfiles. -/
def dotfileRunner : Runner where
  settings := { ignoreDotfiles := false }
  grammar := fun _ _ => .error "no grammar"

/-- A file whose name is nothing but an extension. -/
def suffixFiles : FileTree := ⟨[(".js", .file (Text.encode "f\n"))]⟩

/-- **A file whose name is nothing but an extension** is discovered, and reported as unsupported. -/
theorem unsupported_discovered :
    HasSuffixes dotfileRunner.settings ∧ suffixFiles.WellNamed ∧
      dotfileRunner.discover suffixFiles [] "/" = .ok ([], [⟨"/.js", false⟩]) ∧
      Dialect.ofPath? "/.js" = none ∧
      ∃ done outcome, dotfileRunner.process suffixFiles [] ⟨"/.js", false⟩ = .ok (done, outcome) ∧
        outcome.IsUnsupported := by
  have hpath : Path.absolute [".js"] = "/.js" ∧
      isExcluded dotfileRunner.settings "/.js" = false := by decide +kernel
  have hfound : dotfileRunner.discover suffixFiles [] "/" = .ok ([], [⟨Path.absolute [".js"],
      isExcluded dotfileRunner.settings (Path.absolute [".js"])⟩]) :=
    discover_only (by decide +kernel)
  rw [hpath.1, hpath.2] at hfound
  have hnone : Dialect.ofPath? "/.js" = none := by decide +kernel
  have hread : dotfileRunner.read suffixFiles [] "/.js" = .ok (Text.encode "f\n") :=
    FileTree.read_of_get? [] [".js"] rfl (by decide +kernel) (by decide) (by decide +kernel)
  refine ⟨by decide +kernel, by decide +kernel, hfound, hnone, ?_⟩
  rw [process_of_read rfl hread, rewrite_of_error (Sanitizer.sanitizeWith_of_noDialect hnone _ _)]
  exact ⟨_, _, rfl, _, rfl, rfl⟩

end Batch

end ScriptScrub
