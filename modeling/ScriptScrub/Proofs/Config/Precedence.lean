import ScriptScrub.Config.Load
import ScriptScrub.Proofs.Config.Fields
import ScriptScrub.Proofs.FileTree.Lookup
import ScriptScrub.Proofs.Text.Utf8
import ScriptScrub.Proofs.Yaml.Tables

/-!
# What counts of several sources

Documents are merged one into the other, and the environment into what they make up; in the end the
last source that has a field decides about it (`setting?_merged`). So the settings are loaded
exactly if no document ends the loading and each field can read what was chosen for it
(`load_eq_ok_iff`): the value of the last variable that asks for it, else that of the last document
that has it, else its default. Nothing else of the sources has a part in it (`load_takes_last`).
-/

namespace ScriptScrub.Config

variable {α : Type} {files : FileTree} {here home : List String} {asked : Option String}
  {env : Environment}

/-- Is a value a table? -/
def Value.isTable : Value → Bool
  | table _ => true
  | _ => false

/-! ## Documents -/

/-- The table of a document. There is none unless the document is there, can be read and is a
table. -/
def tableAt (files : FileTree) (here : List String) (path : String) : Option Entries :=
  match files.read here path with
  | .error _ => none
  | .ok content =>
    match (Text.decodeChars? content).map Yaml.read with
    | some (.ok (.table es)) => some es
    | _ => none

/-- The tables of all documents, the weakest first. -/
def tables (files : FileTree) (here home : List String) (asked : Option String) : List Entries :=
  (documentPaths here home asked).filterMap (tableAt files here)

/-- What a document adds is its table. -/
theorem documentAt_eq_ok {path : String} {es : Entries} {told : List Notice}
    (h : documentAt files here path = .ok (es, told)) :
    es = (tableAt files here path).getD [] := by
  rw [documentAt] at h
  rw [tableAt]
  cases hread : files.read here path with
  | error e =>
      rw [hread] at h
      split at h
      · cases h
        rfl
      · cases h
        rfl
  | ok content =>
      rw [hread, FileTree.leads_of_read hread, if_neg nofun] at h
      dsimp only at h ⊢
      cases hcs : Text.decodeChars? content with
      | none =>
          rw [hcs] at h
          cases h
      | some cs =>
          rw [hcs] at h
          rw [Option.map_some]
          dsimp only at h
          cases hvalue : Yaml.read cs with
          | error f =>
              rw [hvalue] at h
              dsimp only at h
              split at h
              · cases h
              · cases h
                rfl
          | ok v =>
              rw [hvalue] at h
              cases v with
              | table es | _ =>
                  cases h
                  rfl

/-- The table of a document is one in which no name comes twice, and so are the tables in it. -/
theorem distinct_of_tableAt {path : String} {es : Entries}
    (h : tableAt files here path = some es) :
    es.Distinct ∧ ∀ key fields, (key, .table fields) ∈ es → Entries.Distinct fields := by
  rw [tableAt] at h
  split at h
  · cases h
  split at h
  · next hread =>
    cases h
    obtain ⟨cs, -, hread⟩ := Option.map_eq_some_iff.1 hread
    exact Yaml.distinct_of_read hread
  · cases h

/-- Every section that a document has is a table. -/
def SectionsAreTables (es : Entries) : Prop :=
  ∀ s ∈ sectionNames, (es.named? s).all Value.isTable = true

instance (es : Entries) : Decidable (SectionsAreTables es) :=
  inferInstanceAs (Decidable (∀ s ∈ sectionNames, _ = true))

/-- A document whose sections are tables is a table of sections. -/
theorem sectioned_of_tableAt {path : String} {es : Entries} (h : tableAt files here path = some es)
    (hsections : SectionsAreTables es) : es.Sectioned := by
  obtain ⟨hdistinct, hfields⟩ := distinct_of_tableAt h
  refine ⟨hdistinct, fun s hs v hv => ?_⟩
  have htable := hsections s hs
  rw [hv, Option.all_some] at htable
  cases v with
  | table fields =>
      obtain ⟨key, hkey⟩ := Entries.mem_of_named? hv
      exact ⟨fields, rfl, hfields key fields hkey⟩
  | _ => cases htable

/-- Nothing in the documents ends the loading: each can be left out or used, and its keys are
texts. -/
structure Loadable (files : FileTree) (here home : List String) (asked : Option String) : Prop where
  used : ∀ path ∈ documentPaths here home asked, ∃ added, documentAt files here path = .ok added
  keys : ∀ es ∈ tables files here home asked, es.all (·.1.isText) = true

/-- **The documents are merged** one after the other. -/
theorem mergeDocuments_eq_ok {paths : List String} {entries merged : Entries} :
    (mergeDocuments files here entries paths).2 = .ok merged ↔
      (∀ path ∈ paths, ∃ added, documentAt files here path = .ok added) ∧
        merged = (paths.filterMap (tableAt files here)).foldl merge entries := by
  induction paths generalizing entries with
  | nil => simp [mergeDocuments, eq_comm]
  | cons path paths ih =>
      rw [mergeDocuments]
      cases hadded : documentAt files here path with
      | error e => simp [hadded]
      | ok added =>
          have htable := documentAt_eq_ok hadded
          dsimp only
          have hfirst : ∃ added, documentAt files here path = .ok added := ⟨added, hadded⟩
          rw [ih, List.forall_mem_cons, and_assoc, and_iff_right hfirst, List.filterMap_cons,
            htable]
          cases tableAt files here path with
          | none => rw [Option.getD_none, merge]
          | some es => rw [Option.getD_some, List.foldl_cons]

/-! ## The last source -/

/-- The value that is chosen for a field: that of the last variable that asks for it, or else that
of the last of some documents that has it. -/
def Field.chosen (f : Field α) (env : Environment) (docs : List Entries) : Option Value :=
  ((env.filter fun e => AsksFor e.1 f.sectionName f.name).getLast?.map fun e =>
    variableValue f.isList e.2).or
      (docs.filterMap (·.setting? f.sectionName f.name)).getLast?

/-- All documents and the environment, merged. -/
def mergedWith (docs : List Entries) (env : Environment) : Entries :=
  merge (docs.foldl merge []) (overrides env)

/-- What a field reads of merged documents is what it reads of the last one that has it. -/
theorem setting?_foldl_merge {docs : List Entries} (hdocs : ∀ es ∈ docs, es.Sectioned) :
    (docs.foldl merge []).Sectioned ∧ ∀ {α : Type} (f : Field α),
      ((docs.foldl merge []).setting? f.sectionName f.name).map f.read =
        (docs.filterMap (·.setting? f.sectionName f.name)).getLast?.map f.read := by
  induction docs using List.reverseRecOn with
  | nil => exact ⟨Entries.sectioned_nil, fun f => rfl⟩
  | append_singleton docs es ih =>
      obtain ⟨hmerged, hread⟩ := ih fun es hes => hdocs es (List.mem_append_left _ hes)
      have hes : es.Sectioned := hdocs es (by simp)
      rw [List.foldl_append, List.foldl_cons, List.foldl_nil]
      refine ⟨hmerged.merge hes, fun f => ?_⟩
      rw [Entries.setting?_merge hmerged hes f.sectionName_mem, List.filterMap_append]
      cases hv : es.setting? f.sectionName f.name with
      | none => simpa [hv] using hread f
      | some v => simp [hv, f.read_mergeValue]

/-- **What a field reads of all sources** is what it reads of the value that is chosen for it. -/
theorem setting?_mergedWith {docs : List Entries} (hdocs : ∀ es ∈ docs, es.Sectioned)
    (env : Environment) : (mergedWith docs env).Sectioned ∧ ∀ {α : Type} (f : Field α),
      ((mergedWith docs env).setting? f.sectionName f.name).map f.read =
        (f.chosen env docs).map f.read := by
  obtain ⟨hmerged, hread⟩ := setting?_foldl_merge hdocs
  have henv := sectioned_overrides env
  refine ⟨hmerged.merge henv, fun f => ?_⟩
  rw [mergedWith, Entries.setting?_merge hmerged henv f.sectionName_mem, Field.chosen,
    setting?_overrides env f.isKnown]
  cases (env.filter fun e => AsksFor e.1 f.sectionName f.name).getLast? with
  | none => simpa using hread f
  | some e => simp [f.read_mergeValue]

/-- Values that are read alike come to the same. -/
theorem readsAs_congr {read : Value → Checked α} {default a : α} {v? w? : Option Value}
    (h : v?.map read = w?.map read) : ReadsAs read default v? a ↔ ReadsAs read default w? a := by
  cases v? <;> cases w? <;> simp_all [ReadsAs]

/-! ## Loading -/

/-- All keys of merged documents are texts exactly if all keys of each of them are. -/
theorem all_isText_foldl_merge (docs : List Entries) (base : Entries) :
    (docs.foldl merge base).all (·.1.isText) =
      (base.all (·.1.isText) && docs.all fun es => es.all (·.1.isText)) := by
  induction docs generalizing base with
  | nil => rw [List.foldl_nil, List.all_nil, Bool.and_true]
  | cons es docs ih =>
      rw [List.foldl_cons, ih, Entries.all_isText_merge, List.all_cons, Bool.and_assoc]

/-- Merged sources make up settings if all keys are texts and the settings can be read. -/
theorem settingsOf_eq_ok_iff {es : Entries} {settings : Settings} :
    settingsOf es = .ok settings ↔
      es.all (·.1.isText) = true ∧ Settings.read es = .ok settings := by
  rw [settingsOf]
  split
  · next htext =>
    rw [and_iff_right htext]
    cases Settings.read es <;> simp [Except.mapError]
  · next htext => exact iff_of_false nofun fun h => htext h.1

/-- All keys of all sources are texts exactly if those of the documents are. -/
theorem all_isText_mergedWith (docs : List Entries) (env : Environment) :
    (mergedWith docs env).all (·.1.isText) = docs.all fun es => es.all (·.1.isText) := by
  rw [mergedWith, Entries.all_isText_merge, isText_overrides, Bool.and_true,
    all_isText_foldl_merge, List.all_nil, Bool.true_and]

/-- If every document can be left out or used, loading is merging all sources. -/
theorem load_eq_settingsOf
    (hused : ∀ path ∈ documentPaths here home asked,
      ∃ added, documentAt files here path = .ok added) :
    (load files here home asked env).2 =
      settingsOf (mergedWith (tables files here home asked) env) := by
  have hmerged : (mergeDocuments files here [] (documentPaths here home asked)).2 = .ok _ :=
    mergeDocuments_eq_ok.2 ⟨hused, rfl⟩
  rw [load]
  rcases hm : mergeDocuments files here [] (documentPaths here home asked) with ⟨told, result⟩
  rw [hm] at hmerged
  cases hmerged
  rfl

/-- Loading is merging all sources, and reading the settings from that. -/
theorem load_eq_ok_iff_merged {settings : Settings} :
    (load files here home asked env).2 = .ok settings ↔
      Loadable files here home asked ∧
        Settings.read (mergedWith (tables files here home asked) env) = .ok settings := by
  rcases hm : mergeDocuments files here [] (documentPaths here home asked) with ⟨told, e | merged⟩
  · rw [load, hm]
    refine iff_of_false nofun fun h => ?_
    have hmerged : (mergeDocuments files here [] (documentPaths here home asked)).2 = .ok _ :=
      mergeDocuments_eq_ok.2 ⟨h.1.used, rfl⟩
    rw [hm] at hmerged
    cases hmerged
  · obtain ⟨hused, -⟩ := mergeDocuments_eq_ok.1 (congrArg Prod.snd hm)
    rw [load_eq_settingsOf hused, settingsOf_eq_ok_iff, all_isText_mergedWith, List.all_eq_true]
    constructor
    · rintro ⟨hkeys, hread⟩
      exact ⟨⟨hused, hkeys⟩, hread⟩
    · rintro ⟨hloadable, hread⟩
      exact ⟨hloadable.keys, hread⟩

/-- **The settings are loaded** exactly if no document ends the loading and every field can read
what is chosen for it. -/
theorem load_eq_ok_iff
    (hsections : ∀ es ∈ tables files here home asked, SectionsAreTables es) {settings : Settings} :
    (load files here home asked env).2 = .ok settings ↔
      Loadable files here home asked ∧ ∀ (α : Type) (f : Field α),
        ReadsAs f.read f.default (f.chosen env (tables files here home asked)) (f.of settings) := by
  have hdocs : ∀ es ∈ tables files here home asked, es.Sectioned := by
    intro es hes
    obtain ⟨path, -, htable⟩ := List.mem_filterMap.1 hes
    exact sectioned_of_tableAt htable (hsections es hes)
  obtain ⟨hmerged, hread⟩ := setting?_mergedWith hdocs env
  rw [load_eq_ok_iff_merged, settings_read_iff hmerged]
  refine and_congr_right fun _ => forall_congr' fun α => forall_congr' fun f => ?_
  exact readsAs_congr (hread f)

/-- **The last source of a field decides about it**, whatever else the sources hold. If the settings
are loaded, each field has what its reader makes of the value of the last variable that asks for it;
if none does, of the value of the last document that has it; if none has, its default. Any other
files and variables that come to the same choices, with documents that can be left out or used, make
the same settings. -/
theorem load_takes_last
    (hsections : ∀ es ∈ tables files here home asked, SectionsAreTables es) {settings : Settings}
    (h : (load files here home asked env).2 = .ok settings) :
    (∀ (α : Type) (f : Field α),
      ReadsAs f.read f.default (f.chosen env (tables files here home asked)) (f.of settings)) ∧
    ∀ (files' : FileTree) (here' home' : List String) (asked' : Option String) (env' : Environment),
      (∀ es ∈ tables files' here' home' asked', SectionsAreTables es) →
      Loadable files' here' home' asked' →
      (∀ (α : Type) (f : Field α), f.chosen env' (tables files' here' home' asked') =
        f.chosen env (tables files here home asked)) →
      (load files' here' home' asked' env').2 = .ok settings := by
  obtain ⟨-, hfields⟩ := (load_eq_ok_iff hsections).1 h
  refine ⟨hfields, fun files' here' home' asked' env' hsections' hloadable hchosen => ?_⟩
  refine (load_eq_ok_iff hsections').2 ⟨hloadable, fun α f => ?_⟩
  rw [hchosen]
  exact hfields α f

/-! ## A project with one document -/

/-- A text is what it is read as. -/
theorem documentAt_of_text {path document : String}
    (hread : files.read here path = .ok (Text.encode document)) :
    ∀ {v : Value}, Yaml.read document.toList = .ok v →
      documentAt files here path = match v with
        | .table es => .ok (es, [.loaded path])
        | v => .ok ([], [if v.isEmpty then .loaded path else .noTable path]) := by
  intro v hvalue
  simp only [documentAt, FileTree.leads_of_read hread, hread, Text.decodeChars?_encode, hvalue]
  cases v <;> rfl

/-- A text that is read as a table gives its entries. -/
theorem tableAt_of_text {path document : String} {es : Entries}
    (hread : files.read here path = .ok (Text.encode document))
    (hvalue : Yaml.read document.toList = .ok (.table es)) :
    tableAt files here path = some es := by
  rw [tableAt, hread]
  simp only [Text.decodeChars?_encode, Option.map_some, hvalue]

/-- A root folder that holds nothing but the document of a project. -/
def soleDocument (content : Bytes) : FileTree := ⟨[(".buildsweep.yaml", .file content)]⟩

/-- The documents that are looked for if the root folder is the home folder, too. -/
theorem documentPaths_root :
    documentPaths [] [] none = ["/.buildsweep/config.yaml", "/.buildsweep.yaml"] := by
  decide +kernel

/-- The document of the project is read. -/
theorem read_soleDocument (content : Bytes) :
    (soleDocument content).read [] "/.buildsweep.yaml" = .ok content :=
  FileTree.read_of_get? [] [".buildsweep.yaml"] rfl (by decide +kernel) (by decide)
    (by decide +kernel)

/-- There is no document of the user. -/
theorem locate_soleDocument (content : Bytes) :
    (soleDocument content).locate [] "/.buildsweep/config.yaml" = .error .missing := by
  have habsolute : Path.isAbsolute "/.buildsweep/config.yaml" = true := by decide +kernel
  have hparts : Path.parts "/.buildsweep/config.yaml" = [".buildsweep", "config.yaml"] := by
    decide +kernel
  rw [FileTree.locate, if_pos habsolute, hparts, FileTree.walkTo_cons]
  rfl

/-- The user has no part in the settings. -/
theorem documentAt_soleDocument (content : Bytes) :
    documentAt (soleDocument content) [] "/.buildsweep/config.yaml" = .ok ([], []) := by
  rw [documentAt, FileTree.leads, FileTree.entryAt, locate_soleDocument]
  rfl

/-- There is no table but that of the one document. -/
theorem tables_soleDocument (content : Bytes) :
    tables (soleDocument content) [] [] none =
      (tableAt (soleDocument content) [] "/.buildsweep.yaml").toList := by
  have hnone : tableAt (soleDocument content) [] "/.buildsweep/config.yaml" = none := by
    rw [tableAt, FileTree.read_eq, locate_soleDocument]
    rfl
  rw [tables, documentPaths_root, List.filterMap_cons_none hnone]
  cases htable : tableAt (soleDocument content) [] "/.buildsweep.yaml" with
  | none => exact List.filterMap_cons_none htable
  | some es => exact List.filterMap_cons_some htable

/-- **The settings come from the one document** and from the environment. -/
theorem load_soleDocument {content : Bytes} {result : Except LoadError (Entries × List Notice)}
    (h : documentAt (soleDocument content) [] "/.buildsweep.yaml" = result) (env : Environment) :
    (load (soleDocument content) [] [] none env).2 =
      result.bind fun added => settingsOf (mergedWith [added.1] env) := by
  rw [load, documentPaths_root, mergeDocuments, documentAt_soleDocument]
  dsimp only
  rw [mergeDocuments, h]
  cases result <;> rfl

/-- A document for a watch. -/
def watchDocument : String :=
  "\x7b\"watch\": \x7b\"overlap_policy\": \"parallel\", \"ignored\": [\"gen/\"]\x7d\x7d"

/-- A project with this document. -/
def watchProject : FileTree := ⟨[(".buildsweep.yaml", .file (Text.encode watchDocument))]⟩

/-- An environment with another policy. -/
def watchEnvironment : Environment := [("BUILDSWEEP_WATCH__OVERLAP_POLICY", "coalesce")]

/-- The policy comes from the environment, the patterns from the document, all else is as usual. -/
def watchSettings : Settings :=
  { watch := { ignored := ["gen/"], overlapPolicy := .coalesce } }

/-- The entries of the document. -/
def watchEntries : Entries :=
  [(.text "watch", .table [(.text "overlap_policy", .text "parallel"),
    (.text "ignored", .list [.text "gen/"])])]

/-- The text of the document spells its entries. -/
theorem read_watchDocument : Yaml.read watchDocument.toList = .ok (.table watchEntries) :=
  Yaml.read_of_same (by decide +kernel)

/-- The document is all that there is. -/
theorem tables_watchProject : tables watchProject [] [] none = [watchEntries] :=
  (tables_soleDocument _).trans <|
    congrArg Option.toList (tableAt_of_text (read_soleDocument _) read_watchDocument)

/-- Both sources count where they are the last ones. -/
theorem load_takes_last_watchProject :
    (load watchProject [] [] none watchEnvironment).2 = .ok watchSettings ∧
    ReadsAs Field.overlapPolicy.read Field.overlapPolicy.default
      (Field.overlapPolicy.chosen watchEnvironment (tables watchProject [] [] none))
      .coalesce := by
  have hall : ∀ es ∈ tables watchProject [] [] none, SectionsAreTables es := by
    rw [tables_watchProject]
    exact List.forall_mem_singleton.2 (by decide +kernel)
  have hload : (load watchProject [] [] none watchEnvironment).2 = .ok watchSettings := by
    have hdocument := documentAt_of_text (read_soleDocument _) read_watchDocument
    exact (load_soleDocument hdocument _).trans (by decide +kernel)
  exact ⟨hload, (load_takes_last hall hload).1 _ .overlapPolicy⟩

end ScriptScrub.Config
