import ScriptScrub.Config.Environment
import ScriptScrub.Proofs.Config.Entries

/-!
# Tables of sections

The settings stand in tables of tables: the sections, and in each of them its fields (`Sectioned`).
If such a table is merged into another one, a field that it sets takes its value, merged into the
one before, and all other fields keep theirs (`setting?_merge`).
-/

namespace ScriptScrub.Config

/-- The names of the sections. -/
def sectionNames : List String := knownFields.map (·.1)

/-- The value that a merge leaves where there was none. -/
@[simp] theorem mergeValue_none (value : Value) : mergeValue none value = value := by
  cases value <;> rfl

namespace Entries

/-- The fields of a section; there are none if it is no table. -/
def fieldsOf (es : Entries) (sectionName : String) : Entries :=
  match es.named? sectionName with
  | some (.table fields) => fields
  | _ => []

/-- The value of a field of a section. -/
def setting? (es : Entries) (sectionName field : String) : Option Value :=
  (es.fieldsOf sectionName).named? field

/-- A table in which no name comes twice, with sections that are such tables. -/
structure Sectioned (es : Entries) : Prop where
  distinct : es.Distinct
  sections : ∀ s ∈ sectionNames, ∀ v, es.named? s = some v →
    ∃ fields : Entries, v = .table fields ∧ fields.Distinct

/-- The fields of a section after something was put under a name. -/
theorem fieldsOf_put (es : Entries) (name sectionName : String) (fields : Entries) :
    (es.put (.text name) (.table fields)).fieldsOf sectionName =
      if name = sectionName then fields else es.fieldsOf sectionName := by
  rw [fieldsOf, named?_put_text]
  by_cases hname : name = sectionName
  · rw [if_pos hname, if_pos hname]
  · rw [if_neg hname, if_neg hname, fieldsOf]

/-- The fields of all sections after one of them was given a value. -/
theorem setting?_put (es : Entries) (s f : String) (value : Value) (sectionName field : String) :
    (es.put (.text s) (.table ((es.fieldsOf s).put (.text f) value))).setting? sectionName field =
      if s = sectionName ∧ f = field then some value else es.setting? sectionName field := by
  rw [setting?, setting?, fieldsOf_put]
  by_cases hs : s = sectionName
  · subst hs
    rw [if_pos rfl, named?_put_text]
    simp only [true_and]
  · rw [if_neg hs, if_neg fun h => hs h.1]

variable {es base more : Entries}

/-- In the fields of a section no name comes twice. -/
theorem Sectioned.distinct_fieldsOf (h : es.Sectioned) {s : String} (hs : s ∈ sectionNames) :
    (es.fieldsOf s).Distinct := by
  rw [fieldsOf]
  split
  · next fields hfields =>
    obtain ⟨_, hv, hdistinct⟩ := h.sections s hs _ hfields
    cases hv
    exact hdistinct
  · trivial

/-- The empty table. -/
theorem sectioned_nil : Sectioned [] := ⟨trivial, nofun⟩

/-- A section is put into a table of sections. -/
theorem Sectioned.put (h : es.Sectioned) (name : String) {fields : Entries}
    (hfields : fields.Distinct) : (es.put (.text name) (.table fields)).Sectioned := by
  refine ⟨h.distinct.put _ _, fun s hs v hv => ?_⟩
  rw [named?_put_text] at hv
  split at hv
  · cases hv
    exact ⟨fields, rfl, hfields⟩
  · exact h.sections s hs v hv

/-- **A merge of tables of sections** is one. -/
theorem Sectioned.merge (hbase : base.Sectioned) (hmore : more.Sectioned) :
    (Config.merge base more).Sectioned := by
  refine ⟨hbase.distinct.merge more, fun s hs v hv => ?_⟩
  rw [named?_merge hmore.distinct] at hv
  cases hm : more.named? s with
  | none =>
      rw [hm] at hv
      exact hbase.sections s hs v hv
  | some w =>
      obtain ⟨fields, rfl, hfields⟩ := hmore.sections s hs w hm
      rw [hm] at hv
      cases hb : base.named? s with
      | none =>
          rw [hb] at hv
          cases hv
          exact ⟨fields, rfl, hfields⟩
      | some b =>
          obtain ⟨earlier, rfl, hearlier⟩ := hbase.sections s hs b hb
          rw [hb] at hv
          cases hv
          exact ⟨_, rfl, hearlier.merge fields⟩

/-- **A field after a merge** of tables of sections. -/
theorem setting?_merge (hbase : base.Sectioned) (hmore : more.Sectioned) {s : String}
    (hs : s ∈ sectionNames) (field : String) :
    (Config.merge base more).setting? s field =
      ((more.setting? s field).map (mergeValue (base.setting? s field))).or
        (base.setting? s field) := by
  rw [setting?, setting?, setting?, fieldsOf, named?_merge hmore.distinct]
  cases hm : more.named? s with
  | none =>
      have hnone : (more.fieldsOf s).named? field = none := by
        rw [fieldsOf, hm]
        rfl
      rw [hnone, Option.map_none, Option.map_none, Option.none_or, Option.none_or, fieldsOf]
  | some v =>
      obtain ⟨fields, rfl, hfields⟩ := hmore.sections s hs v hm
      have hmoreFields : more.fieldsOf s = fields := by rw [fieldsOf, hm]
      rw [hmoreFields, Option.map_some, Option.some_or]
      cases hb : base.named? s with
      | none =>
          have hbaseFields : (base.fieldsOf s).named? field = none := by
            rw [fieldsOf, hb]
            rfl
          rw [hbaseFields, Option.or_none, mergeValue_none]
          simp only [funext mergeValue_none, Option.map_id']
      | some b =>
          obtain ⟨earlier, rfl, -⟩ := hbase.sections s hs b hb
          have hbaseFields : base.fieldsOf s = earlier := by rw [fieldsOf, hb]
          rw [hbaseFields]
          exact named?_merge hfields earlier field

end Entries

end ScriptScrub.Config
