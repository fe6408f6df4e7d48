import Mathlib.Data.List.Induction
import ScriptScrub.Proofs.Config.Sections
import ScriptScrub.Proofs.Text.LetterCase

/-!
# What the environment sets

A variable sets a field if its name asks for it (`ofName_eq_setting_iff`): after its start, in
small letters, come the section and the field with two underscores between them. Of several
variables that ask for a field the last one counts (`setting?_overrides`).
-/

namespace ScriptScrub.Config

/-! ## Names of variables -/

/-- A name asks for a field: what follows its start is in small letters the section, two underscores
and the field. -/
def AsksFor (name sectionName field : String) : Prop :=
  ∃ rest, name = variableStart ++ rest ∧ Text.lower rest = sectionName ++ "__" ++ field

/-- The same, with the start cut off. -/
theorem asksFor_iff {name s f : String} : AsksFor name s f ↔
    variableStart.toList <+: name.toList ∧
      Text.lower (String.ofList (name.toList.drop variableStart.length)) = s ++ "__" ++ f := by
  have hlength : variableStart.length = variableStart.toList.length := rfl
  constructor
  · rintro ⟨rest, rfl, hlower⟩
    rw [String.toList_append, hlength, List.drop_left, String.ofList_toList]
    exact ⟨List.prefix_append _ _, hlower⟩
  · rintro ⟨⟨rest, hrest⟩, hlower⟩
    rw [← hrest, hlength, List.drop_left] at hlower
    refine ⟨String.ofList rest, ?_, hlower⟩
    rw [← String.toList_inj, String.toList_append, String.toList_ofList, hrest]

instance (name s f : String) : Decidable (AsksFor name s f) :=
  decidable_of_iff _ asksFor_iff.symm

/-- There are two underscores in a row at the start of a text or later in it. -/
theorem hasDoubleUnderscore_cons {c : Char} {cs : List Char} :
    hasDoubleUnderscore (c :: cs) = true ↔
      (c = '_' ∧ cs.head? = some '_') ∨ hasDoubleUnderscore cs = true := by
  by_cases h : c = '_' ∧ cs.head? = some '_'
  · obtain ⟨rfl, hcs⟩ := h
    obtain ⟨tail, rfl⟩ := List.head?_eq_some_iff.1 hcs
    exact iff_of_true (hasDoubleUnderscore.eq_1 tail) (.inl ⟨rfl, rfl⟩)
  · rw [hasDoubleUnderscore.eq_2 c cs fun tail hc hcs => h ⟨hc, by rw [hcs]; rfl⟩, or_iff_right h]

/-- Two underscores in a row stay when something comes in front. -/
theorem hasDoubleUnderscore_append {cs : List Char} (h : hasDoubleUnderscore cs = true)
    (before : List Char) : hasDoubleUnderscore (before ++ cs) = true := by
  induction before with
  | nil => exact h
  | cons c before ih => exact hasDoubleUnderscore_cons.2 (.inr ih)

/-- Two underscores in a row that do not begin a text are further on in it. -/
theorem hasDoubleUnderscore_of_ne {c : Char} (hc : c ≠ '_') {cs : List Char}
    (h : hasDoubleUnderscore (c :: cs) = true) : hasDoubleUnderscore cs = true :=
  (hasDoubleUnderscore_cons.1 h).resolve_left fun hstart => hc hstart.1

/-- **Two underscores in a row in small letters** were there before. -/
theorem hasDoubleUnderscore_of_lowerAfter {cased : Bool} {cs : List Char}
    (h : hasDoubleUnderscore (Text.lowerAfter cased cs) = true) :
    hasDoubleUnderscore cs = true := by
  induction cs generalizing cased with
  | nil => cases h
  | cons c cs ih =>
      rw [hasDoubleUnderscore_cons]
      rw [Text.lowerAfter] at h
      split at h
      · have hbehind := hasDoubleUnderscore_of_ne (by decide) h
        exact .inr (ih (hasDoubleUnderscore_of_ne (by decide) hbehind))
      split at h
      · refine .inr (ih (hasDoubleUnderscore_of_ne ?_ h))
        split <;> decide
      · obtain ⟨hc, hcs⟩ | h := hasDoubleUnderscore_cons.1 h
        · exact .inl ⟨Text.eq_of_lowerChar_eq (by decide) hc,
            Text.head?_of_lowerAfter (by decide) hcs⟩
        · exact .inr (ih h)

/-- A name that asks for a field has two underscores in a row. -/
theorem AsksFor.hasDoubleUnderscore {name s f : String} (h : AsksFor name s f) :
    hasDoubleUnderscore name.toList = true := by
  obtain ⟨rest, rfl, hlower⟩ := h
  have hrest : Text.lowerAfter false rest.toList = s.toList ++ ('_' :: '_' :: f.toList) := by
    have htexts := congrArg String.toList hlower
    rw [Text.lower, String.toList_ofList, String.toList_append, String.toList_append,
      List.append_assoc] at htexts
    exact htexts
  have hdouble : Config.hasDoubleUnderscore (Text.lowerAfter false rest.toList) = true := by
    rw [hrest]
    exact hasDoubleUnderscore_append rfl _
  rw [String.toList_append]
  exact hasDoubleUnderscore_append (hasDoubleUnderscore_of_lowerAfter hdouble) _

/-- A text is split at two underscores in a row, or nothing is split off. -/
theorem splitName_eq (cs : List Char) :
    cs = (splitName cs).1 ++ '_' :: '_' :: (splitName cs).2 ∨ (splitName cs).2 = [] := by
  induction cs using splitName.induct with
  | case1 => exact .inr rfl
  | case2 rest => exact .inl rfl
  | case3 c rest hstart first second hsplit ih =>
      rw [splitName.eq_3 c rest hstart]
      rw [hsplit] at ih ⊢
      exact ih.imp_left (congrArg (c :: ·))

/-- A text is split where it was put together, if the first part has no underscore. -/
theorem splitName_append {first : List Char} (h : '_' ∉ first) (second : List Char) :
    splitName (first ++ '_' :: '_' :: second) = (first, second) := by
  induction first with
  | nil => rfl
  | cons c first ih =>
      rw [List.mem_cons, not_or] at h
      rw [List.cons_append, splitName.eq_3 c _ fun _ hc _ => h.1 hc.symm, ih h.2]

/-- The fields that the environment can set, with their sections, and whether they are lists. -/
def IsKnown (sectionName field : String) (isList : Bool) : Prop :=
  (knownFields.lookup sectionName).bind (·.lookup field) = some isList

/-- The name of a section has no underscore in it, and each field has a name. -/
theorem IsKnown.spelled {s f : String} {isList : Bool} (h : IsKnown s f isList) :
    s ∈ sectionNames ∧ '_' ∉ s.toList ∧ f ≠ "" := by
  have hall : ∀ p ∈ knownFields, '_' ∉ p.1.toList ∧ ∀ q ∈ p.2, q.1 ≠ "" := by decide +kernel
  obtain ⟨fields, hs, hf⟩ := Option.bind_eq_some_iff.1 h
  obtain ⟨_, _, heq, -⟩ := List.lookup_eq_some_iff.1 hs
  obtain ⟨_, _, heq', -⟩ := List.lookup_eq_some_iff.1 hf
  have hmem : (s, fields) ∈ knownFields := heq ▸ List.mem_append_right _ List.mem_cons_self
  have hmem' : (f, isList) ∈ fields := heq' ▸ List.mem_append_right _ List.mem_cons_self
  exact ⟨List.mem_map_of_mem hmem, (hall _ hmem).1, (hall _ hmem).2 _ hmem'⟩

/-- A variable of another form is none of the program's. -/
theorem ofName_eq_foreign {name : String} (h : ¬ (variableStart.toList <+: name.toList ∧
    hasDoubleUnderscore name.toList = true)) : Variable.ofName name = .foreign := by
  rw [Variable.ofName]
  dsimp only
  rw [if_pos]
  rw [← List.isPrefixOf_iff_prefix, ← Bool.and_eq_true, Bool.not_eq_true] at h
  rw [← Bool.not_and, h]
  rfl

/-- What a variable of the right form means is told by the two parts of its name. -/
theorem ofName_eq {name small : String} (hstart : variableStart.toList <+: name.toList)
    (hdouble : hasDoubleUnderscore name.toList = true)
    (hsmall : Text.lower (String.ofList (name.toList.drop variableStart.length)) = small) :
    Variable.ofName name =
      match (knownFields.lookup (String.ofList (splitName small.toList).1)).bind
        (·.lookup (String.ofList (splitName small.toList).2)) with
      | some isList => .setting (String.ofList (splitName small.toList).1)
          (String.ofList (splitName small.toList).2) isList
      | none => .unknown := by
  rw [Variable.ofName]
  dsimp only
  rw [List.isPrefixOf_iff_prefix.2 hstart, hdouble, hsmall]
  rfl

/-- **A variable sets a field** exactly if its name asks for this field and the program knows it. -/
theorem ofName_eq_setting_iff {name s f : String} {isList : Bool} :
    Variable.ofName name = .setting s f isList ↔ AsksFor name s f ∧ IsKnown s f isList := by
  rw [asksFor_iff]
  generalize hsmall : Text.lower (String.ofList (name.toList.drop variableStart.length)) = small
  constructor
  · intro h
    by_cases hform : variableStart.toList <+: name.toList ∧ hasDoubleUnderscore name.toList = true
    · rw [ofName_eq hform.1 hform.2 hsmall] at h
      split at h
      case h_2 => cases h
      next hknown =>
      cases h
      refine ⟨⟨hform.1, ?_⟩, hknown⟩
      obtain ⟨-, -, hfield⟩ := IsKnown.spelled hknown
      obtain heq | hnone := splitName_eq small.toList
      · rw [← String.toList_inj]
        simpa using heq
      · exact absurd (by rw [hnone]) hfield
    · rw [ofName_eq_foreign hform] at h
      cases h
  · rintro ⟨⟨hstart, hlower⟩, hknown⟩
    obtain ⟨-, hsection, -⟩ := hknown.spelled
    have hparts : small.toList = s.toList ++ '_' :: '_' :: f.toList := by
      rw [hlower, String.toList_append, String.toList_append, List.append_assoc]
      rfl
    have hdouble := AsksFor.hasDoubleUnderscore (asksFor_iff.2 ⟨hstart, hsmall.trans hlower⟩)
    rw [ofName_eq hstart hdouble hsmall, hparts, splitName_append hsection]
    simp only [String.ofList_toList]
    rw [IsKnown] at hknown
    rw [hknown]

/-! ## Environments -/

/-- One variable more. -/
theorem overrides_concat (env : Environment) (e : String × String) :
    overrides (env ++ [e]) = override (overrides env) e := by
  rw [overrides, List.foldl_append, List.foldl_cons, List.foldl_nil, overrides]

/-- No variable sets a field that it does not ask for. -/
theorem setting?_override (o : Entries) (e : String × String) {s f : String} {isList : Bool}
    (hknown : IsKnown s f isList) :
    (override o e).setting? s f =
      if AsksFor e.1 s f then some (variableValue isList e.2) else o.setting? s f := by
  have hasks : AsksFor e.1 s f ↔ Variable.ofName e.1 = .setting s f isList :=
    (and_iff_left hknown).symm.trans ofName_eq_setting_iff.symm
  rw [override]
  split
  · next s' f' isList' hname =>
    refine (Entries.setting?_put o s' f' _ s f).trans ?_
    by_cases hsame : s' = s ∧ f' = f
    · obtain ⟨rfl, rfl⟩ := hsame
      -- The program knows the field in one way only.
      obtain rfl : isList' = isList :=
        Option.some.inj ((ofName_eq_setting_iff.1 hname).2.symm.trans hknown)
      rw [if_pos ⟨rfl, rfl⟩, if_pos (hasks.2 hname)]
    · rw [if_neg hsame, if_neg]
      rw [hasks, hname]
      rintro ⟨⟩
      exact hsame ⟨rfl, rfl⟩
  · next hno => rw [if_neg fun h => hno s f isList (hasks.1 h)]

/-- The fields that the environment sets are a table of sections. -/
theorem sectioned_overrides (env : Environment) : (overrides env).Sectioned := by
  induction env using List.reverseRecOn with
  | nil => exact Entries.sectioned_nil
  | append_singleton env e ih =>
      rw [overrides_concat, override]
      split
      · next s f isList hname =>
        obtain ⟨hs, -, -⟩ := (ofName_eq_setting_iff.1 hname).2.spelled
        exact ih.put s ((ih.distinct_fieldsOf hs).put _ _)
      · exact ih

/-- **The last variable that asks for a field sets it.** -/
theorem setting?_overrides (env : Environment) {s f : String} {isList : Bool}
    (hknown : IsKnown s f isList) :
    (overrides env).setting? s f =
      (env.filter fun e => AsksFor e.1 s f).getLast?.map fun e => variableValue isList e.2 := by
  induction env using List.reverseRecOn with
  | nil => rfl
  | append_singleton env e ih =>
      rw [overrides_concat, setting?_override _ _ hknown, ih, List.filter_append]
      by_cases h : AsksFor e.1 s f
      · simp [h]
      · simp [h]

/-- All keys of what the environment sets are texts. -/
theorem isText_overrides (env : Environment) : (overrides env).all (·.1.isText) = true := by
  induction env using List.reverseRecOn with
  | nil => rfl
  | append_singleton env e ih =>
      rw [overrides_concat, override]
      split
      · rw [Entries.all_isText_put, ih]
        rfl
      · exact ih

end ScriptScrub.Config
