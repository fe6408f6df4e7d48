import ScriptScrub.Proofs.Config.Variables

/-!
# The settings one by one

Each setting is a field of a section, with a reader and a default (`Field`). Reading the settings
from a table of sections gives each field the value that its reader makes of what the table has for
it, or its default if it has nothing (`settings_read_iff`); what else the table holds has no part in
it. All readers treat all tables alike, so they take what a merge leaves like the value that was
merged in (`Field.read_mergeValue`).
-/

namespace ScriptScrub.Config

/-! ## Checked values -/

/-- What is applied has a result if both sides have one. -/
theorem Checked.ap_eq_ok {α β : Type} {f : Checked (α → β)} {x : Checked α} {b : β} :
    Checked.ap f x = .ok b ↔ ∃ g a, f = .ok g ∧ x = .ok a ∧ g a = b := by
  cases f <;> cases x <;> simp [Checked.ap]

/-- A value is the same, seen from further out. -/
theorem Checked.under_eq_ok {α : Type} {s : Step} {x : Checked α} {a : α} :
    x.under s = .ok a ↔ x = .ok a := by
  cases x <;> simp [Checked.under]

/-- What a reader makes of a value, or a default if there is no value. -/
def ReadsAs {α : Type} (read : Value → Checked α) (default : α) (value? : Option Value) (a : α) :
    Prop :=
  match value? with
  | some v => read v = .ok a
  | none => a = default

/-- An entry is read if it is there. -/
theorem Entries.optional_eq_ok {α : Type} {es : Entries} {name : String}
    {read : Value → Checked α} {default a : α} :
    es.optional name read default = .ok a ↔ ReadsAs read default (es.named? name) a := by
  rw [Entries.optional]
  cases es.named? name with
  | none =>
      change Except.ok default = Except.ok a ↔ a = default
      rw [Except.ok.injEq, eq_comm]
  | some v => exact Checked.under_eq_ok

/-- A section that is not there is read like one without fields. -/
theorem optional_section {α : Type} {es : Entries} (h : es.Sectioned) {s : String}
    (hs : s ∈ sectionNames) {read : Value → Checked α} {default a : α}
    (hread : read (.table []) = .ok default) :
    es.optional s read default = .ok a ↔ read (.table (es.fieldsOf s)) = .ok a := by
  rw [Entries.optional_eq_ok, Entries.fieldsOf]
  cases hv : es.named? s with
  | none =>
      change a = default ↔ read (.table []) = .ok a
      rw [hread, Except.ok.injEq, eq_comm]
  | some v =>
      obtain ⟨fields, rfl, -⟩ := h.sections s hs v hv
      rfl

/-! ## Fields -/

/-- The settings, each with the type of its values. -/
inductive Field : Type → Type where
  | rules : Field (List Rule)
  | diagnosticObjects : Field (List String)
  | preservedSeverities : Field (List String)
  | extensions : Field (List String)
  | ignoreGlobs : Field (List String)
  | excludedFiles : Field (List String)
  | batchDotfiles : Field Bool
  | watchPaths : Field (List String)
  | ignored : Field (List String)
  | buildCommand : Field (List String)
  | overlapPolicy : Field OverlapPolicy
  | watchDotfiles : Field Bool

namespace Field

variable {α : Type}

/-- The section of a field. -/
def sectionName : Field α → String
  | rules | diagnosticObjects | preservedSeverities => "sanitizer"
  | extensions | ignoreGlobs | excludedFiles | batchDotfiles => "batch"
  | watchPaths | ignored | buildCommand | overlapPolicy | watchDotfiles => "watch"

/-- The name of a field in its section. -/
def name : Field α → String
  | rules => "rules"
  | diagnosticObjects => "diagnostic_objects"
  | preservedSeverities => "preserved_severities"
  | extensions => "extensions"
  | ignoreGlobs => "ignore_globs"
  | excludedFiles => "excluded_files"
  | batchDotfiles | watchDotfiles => "ignore_dotfiles"
  | watchPaths => "watch_paths"
  | ignored => "ignored"
  | buildCommand => "build_command"
  | overlapPolicy => "overlap_policy"

/-- Is the value of a field a list? -/
def isList : Field α → Bool
  | overlapPolicy | batchDotfiles | watchDotfiles => false
  | _ => true

/-- The value of a field among all settings. -/
def of : Field α → Settings → α
  | rules, s => s.sanitizer.rules
  | diagnosticObjects, s => s.sanitizer.diagnosticObjects
  | preservedSeverities, s => s.sanitizer.preservedSeverities
  | extensions, s => s.batch.extensions
  | ignoreGlobs, s => s.batch.ignoreGlobs
  | excludedFiles, s => s.batch.excludedFiles
  | batchDotfiles, s => s.batch.ignoreDotfiles
  | watchPaths, s => s.watch.watchPaths
  | ignored, s => s.watch.ignored
  | buildCommand, s => s.watch.buildCommand
  | overlapPolicy, s => s.watch.overlapPolicy
  | watchDotfiles, s => s.watch.ignoreDotfiles

/-- The reader of a field. -/
def read : Field α → Value → Checked α
  | rules => Value.asList (Value.asChoice Rule.ofName?)
  | overlapPolicy => Value.asChoice OverlapPolicy.ofName?
  | batchDotfiles | watchDotfiles => Value.asFlag
  | diagnosticObjects | preservedSeverities | extensions | ignoreGlobs | excludedFiles | watchPaths
  | ignored | buildCommand => texts

/-- The value of a field that nothing sets. -/
def default (f : Field α) : α := f.of {}

/-- The environment can set every field. -/
theorem isKnown (f : Field α) : IsKnown f.sectionName f.name f.isList := by
  cases f <;> rfl

/-- The section of a field is a section. -/
theorem sectionName_mem (f : Field α) : f.sectionName ∈ sectionNames :=
  f.isKnown.spelled.1

/-- **A field takes what a merge leaves** like the value that was merged in. -/
theorem read_mergeValue (f : Field α) (old : Option Value) (value : Value) :
    f.read (mergeValue old value) = f.read value := by
  cases value with
  | table es =>
      obtain ⟨es', hes'⟩ : ∃ es', mergeValue old (.table es) = .table es' := by
        rcases old with _ | old
        · exact ⟨es, rfl⟩
        · cases old <;> exact ⟨_, rfl⟩
      rw [hes']
      cases f <;> rfl
  | _ => rfl

end Field

/-! ## Settings -/

/-- What one field takes of some fields. -/
def Field.Takes {α : Type} (f : Field α) (fields : Entries) (a : α) : Prop :=
  ReadsAs f.read f.default (fields.named? f.name) a

/-- The settings of the sanitizer are read field by field. -/
theorem sanitizer_read_iff {fields : Entries} {a : SanitizerSettings} :
    SanitizerSettings.read (.table fields) = .ok a ↔
      Field.rules.Takes fields a.rules ∧ Field.diagnosticObjects.Takes fields a.diagnosticObjects ∧
      Field.preservedSeverities.Takes fields a.preservedSeverities := by
  simp only [Field.Takes, ← Entries.optional_eq_ok]
  change Checked.ap (Checked.ap (Checked.ap (.ok SanitizerSettings.mk) _) _) _ = _ ↔ _
  simp only [Checked.ap_eq_ok, Except.ok.injEq, ↓existsAndEq, exists_and_left, and_true, true_and]
  constructor
  · rintro ⟨_, _, ⟨hrules, hobjects⟩, _, hseverities, rfl⟩
    exact ⟨hrules, hobjects, hseverities⟩
  · rintro ⟨hrules, hobjects, hseverities⟩
    exact ⟨_, _, ⟨hrules, hobjects⟩, _, hseverities, rfl⟩

/-- The settings of a batch are read field by field. -/
theorem batch_read_iff {fields : Entries} {a : BatchSettings} :
    BatchSettings.read (.table fields) = .ok a ↔
      Field.extensions.Takes fields a.extensions ∧ Field.ignoreGlobs.Takes fields a.ignoreGlobs ∧
      Field.excludedFiles.Takes fields a.excludedFiles ∧
      Field.batchDotfiles.Takes fields a.ignoreDotfiles := by
  simp only [Field.Takes, ← Entries.optional_eq_ok]
  change Checked.ap (Checked.ap (Checked.ap (Checked.ap (.ok BatchSettings.mk) _) _) _) _ = _ ↔ _
  simp only [Checked.ap_eq_ok, Except.ok.injEq, ↓existsAndEq, exists_and_left, and_true, true_and]
  constructor
  · rintro ⟨_, _, _, ⟨⟨hextensions, hglobs⟩, hexcluded⟩, _, hdotfiles, rfl⟩
    exact ⟨hextensions, hglobs, hexcluded, hdotfiles⟩
  · rintro ⟨hextensions, hglobs, hexcluded, hdotfiles⟩
    exact ⟨_, _, _, ⟨⟨hextensions, hglobs⟩, hexcluded⟩, _, hdotfiles, rfl⟩

/-- The settings of a watch are read field by field. -/
theorem watch_read_iff {fields : Entries} {a : WatchSettings} :
    WatchSettings.read (.table fields) = .ok a ↔
      Field.watchPaths.Takes fields a.watchPaths ∧ Field.ignored.Takes fields a.ignored ∧
      Field.buildCommand.Takes fields a.buildCommand ∧
      Field.overlapPolicy.Takes fields a.overlapPolicy ∧
      Field.watchDotfiles.Takes fields a.ignoreDotfiles := by
  simp only [Field.Takes, ← Entries.optional_eq_ok]
  change Checked.ap (Checked.ap (Checked.ap (Checked.ap (Checked.ap (.ok WatchSettings.mk) _) _) _)
    _) _ = _ ↔ _
  simp only [Checked.ap_eq_ok, Except.ok.injEq, ↓existsAndEq, exists_and_left, and_true, true_and]
  constructor
  · rintro ⟨_, _, _, _, ⟨⟨⟨hpaths, hignored⟩, hcommand⟩, hpolicy⟩, _, hdotfiles, rfl⟩
    exact ⟨hpaths, hignored, hcommand, hpolicy, hdotfiles⟩
  · rintro ⟨hpaths, hignored, hcommand, hpolicy, hdotfiles⟩
    exact ⟨_, _, _, _, ⟨⟨⟨hpaths, hignored⟩, hcommand⟩, hpolicy⟩, _, hdotfiles, rfl⟩

/-- **The settings are read field by field** from a table of sections. -/
theorem settings_read_iff {es : Entries} (h : es.Sectioned) {settings : Settings} :
    Settings.read es = .ok settings ↔ ∀ (α : Type) (f : Field α),
      ReadsAs f.read f.default (es.setting? f.sectionName f.name) (f.of settings) := by
  have hsections : Settings.read es = .ok settings ↔
      SanitizerSettings.read (.table (es.fieldsOf "sanitizer")) = .ok settings.sanitizer ∧
      BatchSettings.read (.table (es.fieldsOf "batch")) = .ok settings.batch ∧
      WatchSettings.read (.table (es.fieldsOf "watch")) = .ok settings.watch := by
    rw [← optional_section h (by decide) (rfl : SanitizerSettings.read (.table []) = .ok {}),
      ← optional_section h (by decide) (rfl : BatchSettings.read (.table []) = .ok {}),
      ← optional_section h (by decide) (rfl : WatchSettings.read (.table []) = .ok {}),
      Settings.read]
    simp only [Checked.ap_eq_ok, Except.ok.injEq, ↓existsAndEq, exists_and_left, and_true, true_and]
    constructor
    · rintro ⟨_, _, ⟨hsanitizer, hbatch⟩, _, hwatch, rfl⟩
      exact ⟨hsanitizer, hbatch, hwatch⟩
    · rintro ⟨hsanitizer, hbatch, hwatch⟩
      exact ⟨_, _, ⟨hsanitizer, hbatch⟩, _, hwatch, rfl⟩
  rw [hsections, sanitizer_read_iff, batch_read_iff, watch_read_iff]
  constructor
  · rintro ⟨⟨h₁, h₂, h₃⟩, ⟨h₄, h₅, h₆, h₇⟩, h₈, h₉, h₁₀, h₁₁, h₁₂⟩ α f
    cases f <;> assumption
  · intro hall
    exact ⟨⟨hall _ .rules, hall _ .diagnosticObjects, hall _ .preservedSeverities⟩,
      ⟨hall _ .extensions, hall _ .ignoreGlobs, hall _ .excludedFiles, hall _ .batchDotfiles⟩,
      hall _ .watchPaths, hall _ .ignored, hall _ .buildCommand, hall _ .overlapPolicy,
      hall _ .watchDotfiles⟩

end ScriptScrub.Config
