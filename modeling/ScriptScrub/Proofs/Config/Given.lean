import Mathlib.Data.List.Forall2
import ScriptScrub.Proofs.Config.Precedence

/-!
# What a section gives

All that is read of a section is what it gives for its fields (`read_congr`), and every source does
one thing to that: it leaves it, adds to it, or throws it away (`Entries.addTo`). So what a section
of all sources gives is what they make of it one after the other (`given?_mergedWith`). A section
that is no table is a section thrown away: it is as good as none if a source after it has the
section (`givenBy_of_present`), and otherwise no settings are read (`read_ne_ok`).
-/

namespace ScriptScrub.Config

/-- What is given for the fields of a section, unless the section is no table. -/
abbrev Given := Option (String → Option Value)

/-- Nothing is given for any field. -/
def Given.nothing : Given := some fun _ => none

/-- What is given for a field. -/
def Given.field (g : Given) (name : String) : Option Value := (g.getD fun _ => none) name

namespace Entries

/-- What a section gives. One that is not there gives nothing for any field. -/
def given? (es : Entries) (s : String) : Given :=
  match es.named? s with
  | none => .nothing
  | some (.table fields) => some (named? fields)
  | some _ => none

/-- What a section gives with one source more, if it gave `before`. -/
def addTo (es : Entries) (s : String) (before : Given) : Given :=
  match es.named? s with
  | none => before
  | some (.table fields) =>
    some fun f => ((named? fields f).map (mergeValue (before.field f))).or (before.field f)
  | some _ => none

/-- A table in which no name comes twice, and in the sections that are tables neither. -/
structure Clean (es : Entries) : Prop where
  distinct : es.Distinct
  sections : ∀ s ∈ sectionNames, ∀ fields, es.named? s = some (.table fields) →
    Entries.Distinct fields

/-- A table of sections is clean. -/
theorem Sectioned.clean {es : Entries} (h : es.Sectioned) : es.Clean := by
  refine ⟨h.distinct, fun s hs fields hfields => ?_⟩
  obtain ⟨_, hv, hdistinct⟩ := h.sections s hs _ hfields
  cases hv
  exact hdistinct

variable {es more : Entries} {s : String}

/-- A source that does not have the section leaves it. -/
theorem addTo_of_absent (h : es.named? s = none) (before : Given) : es.addTo s before = before := by
  rw [addTo, h]

/-- To a source that has the section, one that is no table is as good as none. -/
theorem addTo_of_present (h : es.named? s ≠ none) : es.addTo s none = es.addTo s .nothing := by
  rw [addTo, addTo]
  split
  · next habsent => exact absurd habsent h
  · rfl
  · rfl

/-- A table without entries adds nothing, but it is a table. -/
theorem addTo_of_empty (h : es.named? s = some (.table [])) (before : Given) :
    es.addTo s before = some before.field := by
  rw [addTo, h]
  exact congrArg some (funext fun f => Option.none_or)

/-- Nothing in the place of a table throws away what was given. -/
theorem addTo_of_null (h : es.named? s = some .null) (before : Given) :
    es.addTo s before = none := by
  rw [addTo, h]

/-- A source takes part by what is under the name of the section. -/
theorem addTo_congr {es' : Entries} (h : es'.named? s = es.named? s) (before : Given) :
    es'.addTo s before = es.addTo s before := by
  rw [addTo, addTo, h]

/-- **What a section gives after a merge.** -/
theorem given?_merge (hs : s ∈ sectionNames) (h : more.Clean) (base : Entries) :
    (merge base more).given? s = more.addTo s (base.given? s) := by
  rw [given?, named?_merge h.distinct, addTo]
  cases hm : more.named? s with
  | none => rfl
  | some v =>
      cases v with
      | table fields =>
          have halone : (fun f => ((named? fields f).map (mergeValue none)).or none) =
              named? fields := by
            simp only [funext mergeValue_none, Option.map_id', Option.or_none]
          rw [given?]
          rcases base.named? s with _ | old
          · exact congrArg some halone.symm
          · cases old with
            | table earlier =>
                exact congrArg some (funext (named?_merge (h.sections s hs fields hm) earlier))
            | _ => exact congrArg some halone.symm
      | _ => rfl

end Entries

/-- A reader of a section takes what the section gives, and complains of one that is no table. -/
structure ReadsGiven {α : Type} (read : Value → Checked α) (default : α) : Prop where
  empty : read (.table []) = .ok default
  fields : ∀ {t t' : Entries}, t.named? = t'.named? → read (.table t) = read (.table t')
  noTable : ∀ {v : Value}, v.isTable = false → read v = .refuse .notTable

/-- A reader that looks up the fields of a table takes what they give. -/
theorem readsGiven_of_entries {α : Type} {read : Entries → Checked α} {default : α}
    (hempty : read [] = .ok default)
    (hfields : ∀ {t t' : Entries}, t.named? = t'.named? → read t = read t') :
    ReadsGiven (fun v => v.asEntries >>= read) default where
  empty := hempty
  fields := hfields
  noTable {v} hv := by
    cases v with
    | table => cases hv
    | _ => rfl

/-- The reader of the sanitizer's settings. -/
theorem readsGiven_sanitizer : ReadsGiven SanitizerSettings.read {} :=
  readsGiven_of_entries rfl fun h => by simp only [Entries.optional, h]

/-- The reader of the settings of a batch. -/
theorem readsGiven_batch : ReadsGiven BatchSettings.read {} :=
  readsGiven_of_entries rfl fun h => by simp only [Entries.optional, h]

/-- The reader of the settings of a watch. -/
theorem readsGiven_watch : ReadsGiven WatchSettings.read {} :=
  readsGiven_of_entries rfl fun h => by simp only [Entries.optional, h]

section
variable {α : Type} {read : Value → Checked α} {default : α} {es : Entries} {s : String}

/-- A section that is a table, or not there, is read by what it gives. -/
theorem ReadsGiven.optional_of_some (hread : ReadsGiven read default) {fields : Entries}
    (h : es.given? s = some fields.named?) :
    es.optional s read default = (read (.table fields)).under (.field s) := by
  rw [Entries.given?] at h
  rw [Entries.optional]
  split at h
  · next hv =>
    have hnone : Entries.named? [] = fields.named? := Option.some.inj h
    rw [hv, ← hread.fields hnone, hread.empty]
    rfl
  · next hv =>
    rw [hv]
    exact congrArg (Checked.under _) (hread.fields (Option.some.inj h))
  · cases h

/-- A section that is no table is complained of. -/
theorem ReadsGiven.optional_of_none (hread : ReadsGiven read default) (h : es.given? s = none) :
    es.optional s read default = (Checked.refuse .notTable).under (.field s) := by
  rw [Entries.given?] at h
  rw [Entries.optional]
  split at h
  · cases h
  · cases h
  · next v hno hv =>
    rw [hv]
    refine congrArg (Checked.under _) (hread.noTable ?_)
    cases v with
    | table fields => exact absurd rfl (hno fields)
    | _ => rfl

/-- What is given is given by some fields. -/
theorem Entries.given?_eq (es : Entries) (s : String) :
    es.given? s = none ∨ ∃ fields : Entries, es.given? s = some fields.named? := by
  rw [given?]
  split
  · exact .inr ⟨[], rfl⟩
  · next fields _ => exact .inr ⟨fields, rfl⟩
  · exact .inl rfl

/-- A section is read by what it gives. -/
theorem ReadsGiven.optional_congr (hread : ReadsGiven read default) {es' : Entries}
    (h : es'.given? s = es.given? s) :
    es'.optional s read default = es.optional s read default := by
  rcases es.given?_eq s with hnone | ⟨fields, hsome⟩
  · rw [hread.optional_of_none hnone, hread.optional_of_none (h.trans hnone)]
  · rw [hread.optional_of_some hsome, hread.optional_of_some (h.trans hsome)]

end

/-- **The settings are read by what the sections give.** -/
theorem read_congr {es es' : Entries} (h : ∀ s ∈ sectionNames, es'.given? s = es.given? s) :
    Settings.read es' = Settings.read es := by
  rw [Settings.read, Settings.read, readsGiven_sanitizer.optional_congr (h _ (by decide)),
    readsGiven_batch.optional_congr (h _ (by decide)),
    readsGiven_watch.optional_congr (h _ (by decide))]

/-- No settings are read if a section is no table. -/
theorem read_ne_ok {es : Entries} {s : String} (hs : s ∈ sectionNames) (h : es.given? s = none)
    (settings : Settings) : Settings.read es ≠ .ok settings := by
  intro hread
  rw [Settings.read] at hread
  simp only [Checked.ap_eq_ok] at hread
  obtain ⟨_, _, ⟨_, _, ⟨_, _, _, hsanitizer, _⟩, hbatch, _⟩, hwatch, _⟩ := hread
  have hsections : s = "sanitizer" ∨ s = "batch" ∨ s = "watch" := by
    simpa [sectionNames, knownFields] using hs
  rcases hsections with rfl | rfl | rfl
  · rw [readsGiven_sanitizer.optional_of_none h] at hsanitizer
    cases hsanitizer
  · rw [readsGiven_batch.optional_of_none h] at hbatch
    cases hbatch
  · rw [readsGiven_watch.optional_of_none h] at hwatch
    cases hwatch

/-- A table without a section. -/
def Entries.without (es : Entries) (s : String) : Entries := es.filter fun e => e.1.name? != some s

/-- What is under a name of a table without a section. -/
theorem Entries.named?_without (es : Entries) (s name : String) :
    (es.without s).named? name = if s = name then none else es.named? name := by
  rw [without, named?_filter (· != some s)]
  by_cases hname : s = name
  · rw [if_neg (by simp [hname]), if_pos hname]
  · rw [if_pos (bne_iff_ne.2 fun h => hname (Option.some.inj h).symm), if_neg hname]

/-- A clean table is clean without a section. -/
theorem Entries.Clean.without {es : Entries} (h : es.Clean) (s : String) :
    (es.without s).Clean := by
  refine ⟨h.distinct.filter (· != some s), fun name hname fields hfields =>
    h.sections name hname fields ?_⟩
  rw [named?_without] at hfields
  split at hfields
  · cases hfields
  · exact hfields

/-! ## What all sources give -/

/-- What a section gives after several sources, if it gave `before`. -/
def givenBy (s : String) (before : Given) (sources : List Entries) : Given :=
  sources.foldl (fun given es => es.addTo s given) before

section
variable {s : String} {sources : List Entries}

/-- What a section gives after some sources and then others. -/
theorem givenBy_append (s : String) (before : Given) (sources more : List Entries) :
    givenBy s before (sources ++ more) = givenBy s (givenBy s before sources) more :=
  List.foldl_append

/-- Sources that do not have the section leave it. -/
theorem givenBy_of_absent (h : ∀ es ∈ sources, es.named? s = none) (before : Given) :
    givenBy s before sources = before := by
  induction sources generalizing before with
  | nil => rfl
  | cons es sources ih =>
      rw [List.forall_mem_cons] at h
      rw [givenBy, List.foldl_cons, Entries.addTo_of_absent h.1]
      exact ih h.2 before

/-- To sources one of which has the section, one that is no table is as good as none. -/
theorem givenBy_of_present (h : ∃ es ∈ sources, es.named? s ≠ none) :
    givenBy s none sources = givenBy s .nothing sources := by
  induction sources with
  | nil =>
      obtain ⟨_, hes, -⟩ := h
      cases hes
  | cons es sources ih =>
      rw [givenBy, givenBy, List.foldl_cons, List.foldl_cons]
      by_cases hes : es.named? s = none
      · rw [Entries.addTo_of_absent hes, Entries.addTo_of_absent hes]
        obtain ⟨es', hmem, hpresent⟩ := h
        refine ih ⟨es', (List.mem_cons.1 hmem).resolve_left ?_, hpresent⟩
        rintro rfl
        exact hpresent hes
      · rw [Entries.addTo_of_present hes]

/-- Sources take part by what is under the name of the section. -/
theorem givenBy_congr {sources' : List Entries}
    (h : List.Forall₂ (fun es es' : Entries => es'.named? s = es.named? s) sources sources')
    (before : Given) : givenBy s before sources' = givenBy s before sources := by
  induction h generalizing before with
  | nil => rfl
  | cons hes _ ih =>
      rw [givenBy, givenBy, List.foldl_cons, List.foldl_cons, Entries.addTo_congr hes]
      exact ih _

/-- Where nothing is given, tables without entries leave it so. -/
theorem givenBy_of_empty
    (h : ∀ es ∈ sources, es.named? s = none ∨ es.named? s = some (.table [])) :
    givenBy s .nothing sources = .nothing := by
  induction sources with
  | nil => rfl
  | cons es sources ih =>
      rw [List.forall_mem_cons] at h
      have hnothing : es.addTo s .nothing = .nothing := by
        rcases h.1 with habsent | hempty
        · exact Entries.addTo_of_absent habsent _
        · exact Entries.addTo_of_empty hempty _
      rw [givenBy, List.foldl_cons, hnothing]
      exact ih h.2

/-- Tables without entries in addition change what a section gives only where it is no table. -/
theorem givenBy_of_added {sources' : List Entries}
    (h : List.Forall₂ (fun es es' : Entries => es'.named? s = es.named? s ∨
      es.named? s = none ∧ es'.named? s = some (.table [])) sources sources')
    {given given' : Given} (hgiven : given' = given ∨ given = none ∧ given' = .nothing) :
    givenBy s given' sources' = givenBy s given sources ∨
      givenBy s given sources = none ∧ givenBy s given' sources' = .nothing := by
  induction h generalizing given given' with
  | nil => exact hgiven
  | @cons es es' _ _ hes _ ih =>
      rw [givenBy, givenBy, List.foldl_cons, List.foldl_cons]
      refine ih ?_
      rcases hes with hsame | ⟨habsent, hempty⟩
      · rw [Entries.addTo_congr hsame]
        rcases hgiven with rfl | ⟨rfl, rfl⟩
        · exact .inl rfl
        · by_cases habsent : es.named? s = none
          · rw [Entries.addTo_of_absent habsent, Entries.addTo_of_absent habsent]
            exact .inr ⟨rfl, rfl⟩
          · rw [Entries.addTo_of_present habsent]
            exact .inl rfl
      · rw [Entries.addTo_of_absent habsent, Entries.addTo_of_empty hempty]
        rcases hgiven with rfl | ⟨rfl, rfl⟩
        · cases given' with
          | none => exact .inr ⟨rfl, rfl⟩
          | some fields => exact .inl rfl
        · exact .inr ⟨rfl, rfl⟩

/-- **What a section of merged tables gives.** -/
theorem given?_foldl_merge (hs : s ∈ sectionNames) (h : ∀ es ∈ sources, es.Clean)
    (base : Entries) :
    (sources.foldl merge base).given? s = givenBy s (base.given? s) sources := by
  induction sources generalizing base with
  | nil => rfl
  | cons es sources ih =>
      rw [List.forall_mem_cons] at h
      rw [List.foldl_cons, ih h.2, Entries.given?_merge hs h.1]
      rfl

/-- What a section of all sources gives. -/
theorem given?_mergedWith (hs : s ∈ sectionNames) (h : ∀ es ∈ sources, es.Clean)
    (env : Environment) :
    (mergedWith sources env).given? s = givenBy s .nothing (sources ++ [overrides env]) := by
  rw [mergedWith, Entries.given?_merge hs (sectioned_overrides env).clean,
    given?_foldl_merge hs h, givenBy_append]
  rfl

end

end ScriptScrub.Config
