import ScriptScrub.Config.Value

/-!
# Tables and what is merged into them

A key that is a name is the same as no other key, so what is under a name is told by the names alone
(`named?_put`). If no name comes twice in a table, merging it into another one gives each of its
names its value and leaves all other names as they are (`named?_merge`), and no name comes twice in
what is merged (`Distinct.merge`). Entries that are left out by their names leave all others as they
are (`named?_filter`).
-/

namespace ScriptScrub.Config

namespace Value

/-- The name that a key is. -/
def name? : Value → Option String
  | text s => some s
  | _ => none

/-- A key is the same as a name only if it is this name. -/
theorem sameKey_text {key : Value} {name : String} :
    key.sameKey (.text name) = true ↔ key.name? = some name := by
  cases key <;> simp [sameKey, name?]

/-- Keys that are the same are the same name, or none of them is a name. -/
theorem name?_eq_of_sameKey {key key' : Value} (h : key.sameKey key' = true) :
    key.name? = key'.name? := by
  cases key <;> cases key' <;> simp_all [sameKey, name?]

/-- Keys that are one name are the same. -/
theorem sameKey_of_name? {key key' : Value} {name : String} (h : key.name? = some name)
    (h' : key'.name? = some name) : key.sameKey key' = true := by
  cases key' with
  | text s =>
      cases h'
      exact sameKey_text.2 h
  | _ => cases h'

/-- A key is a text if it is a name. -/
theorem isText_eq (key : Value) : key.isText = key.name?.isSome := by
  cases key <;> rfl

mutual

/-- Are two values one value? Numbers that are not whole are never said to be. -/
def same : Value → Value → Bool
  | null, null => true
  | flag a, flag b => a == b
  | whole a, whole b => a == b
  | text a, text b => a == b
  | list vs, list ws => sameAll vs ws
  | table es, table fs => sameEntries es fs
  | other, other => true
  | _, _ => false

/-- Are the values of two lists the same, one by one? -/
def sameAll : List Value → List Value → Bool
  | [], [] => true
  | v :: vs, w :: ws => same v w && sameAll vs ws
  | _, _ => false

/-- Are the entries of two tables the same, one by one? -/
def sameEntries : List (Value × Value) → List (Value × Value) → Bool
  | [], [] => true
  | (k, v) :: es, (l, w) :: fs => same k l && same v w && sameEntries es fs
  | _, _ => false

end

mutual

/-- Values that are the same are equal. -/
theorem eq_of_same : ∀ {v w : Value}, v.same w = true → v = w
  | null, null, _ | other, other, _ => rfl
  | flag _, flag _, h => congrArg flag (eq_of_beq h)
  | whole _, whole _, h => congrArg whole (eq_of_beq h)
  | text _, text _, h => congrArg text (eq_of_beq h)
  | list _, list _, h => congrArg list (eq_of_sameAll h)
  | table _, table _, h => congrArg table (eq_of_sameEntries h)

/-- Lists of values that are the same are equal. -/
theorem eq_of_sameAll : ∀ {vs ws : List Value}, sameAll vs ws = true → vs = ws
  | [], [], _ => rfl
  | _ :: _, _ :: _, h => by
      obtain ⟨hv, hvs⟩ := Bool.and_eq_true_iff.1 h
      rw [eq_of_same hv, eq_of_sameAll hvs]

/-- Tables of entries that are the same are equal. -/
theorem eq_of_sameEntries :
    ∀ {es fs : List (Value × Value)}, sameEntries es fs = true → es = fs
  | [], [], _ => rfl
  | (_, _) :: _, (_, _) :: _, h => by
      obtain ⟨he, hes⟩ := Bool.and_eq_true_iff.1 h
      obtain ⟨hk, hv⟩ := Bool.and_eq_true_iff.1 he
      rw [eq_of_same hk, eq_of_same hv, eq_of_sameEntries hes]

end

end Value

namespace Entries

/-- The value under a name if there is one entry more in front. -/
theorem named?_cons (e : Value × Value) (es : Entries) (name : String) :
    named? (e :: es) name = if e.1.name? = some name then some e.2 else named? es name := by
  rw [named?, named?, get?, get?, List.find?_cons]
  by_cases h : e.1.name? = some name
  · rw [if_pos h, Value.sameKey_text.2 h, Option.map_some]
  · rw [if_neg h, Bool.eq_false_iff.2 (mt Value.sameKey_text.1 h)]

/-- What is under a name is one of the values. -/
theorem mem_of_named? {es : Entries} {name : String} {value : Value}
    (h : named? es name = some value) : ∃ key, (key, value) ∈ es := by
  rw [named?, get?, Option.map_eq_some_iff] at h
  obtain ⟨e, he, rfl⟩ := h
  exact ⟨e.1, List.mem_of_find?_eq_some he⟩

/-- **The value under a name** after a value was put under a key. -/
theorem named?_put (es : Entries) (key value : Value) (name : String) :
    named? (put es key value) name =
      if key.name? = some name then some value else named? es name := by
  induction es with
  | nil => rw [put, named?_cons]
  | cons e es ih =>
      rw [put]
      split
      · next hsame =>
        rw [named?_cons, named?_cons, Value.name?_eq_of_sameKey hsame]
        split <;> rfl
      · next hother =>
        rw [named?_cons, named?_cons, ih]
        by_cases he : e.1.name? = some name
        · rw [if_pos he, if_neg fun hkey => hother (Value.sameKey_of_name? he hkey), if_pos he]
        · rw [if_neg he, if_neg he]

/-- The value under a name after a value was put under a name. -/
theorem named?_put_text (es : Entries) (key : String) (value : Value) (name : String) :
    named? (put es (.text key) value) name = if key = name then some value else named? es name := by
  rw [named?_put]
  simp only [Value.name?, Option.some.injEq]

/-- No name comes twice in a table. -/
def Distinct : Entries → Prop
  | [] => True
  | e :: es => (∀ name, e.1.name? = some name → named? es name = none) ∧ Distinct es

/-- No name comes twice after a value was put under a key. -/
theorem Distinct.put {es : Entries} (h : es.Distinct) (key value : Value) :
    (es.put key value).Distinct := by
  induction es with
  | nil => exact ⟨fun _ _ => rfl, trivial⟩
  | cons e es ih =>
      obtain ⟨hfirst, hrest⟩ := h
      rw [Entries.put]
      split
      · exact ⟨hfirst, hrest⟩
      · next hother =>
        refine ⟨fun name hname => ?_, ih hrest⟩
        rw [named?_put, if_neg fun hkey => hother (Value.sameKey_of_name? hname hkey)]
        exact hfirst name hname

/-- **The value under a name** after a table was merged into another one. -/
theorem named?_merge {more : Entries} (h : more.Distinct) (base : Entries) (name : String) :
    named? (merge base more) name =
      ((named? more name).map (mergeValue (named? base name))).or (named? base name) := by
  induction more generalizing base with
  | nil => rw [merge, named?, named?, get?, get?, List.find?_nil, Option.map_none, Option.map_none,
      Option.none_or]
  | cons e more ih =>
      obtain ⟨hfirst, hrest⟩ := h
      rw [merge, ih hrest, named?_put, named?_cons]
      by_cases he : e.1.name? = some name
      · have hkey : e.1 = .text name := by
          cases hv : e.1 <;> simp_all [Value.name?]
        rw [hfirst name he, if_pos he, if_pos he, hkey]
        rfl
      · rw [if_neg he, if_neg he]

/-- No name comes twice after a table was merged into another one. -/
theorem Distinct.merge {base : Entries} (h : base.Distinct) (more : Entries) :
    (Config.merge base more).Distinct := by
  induction more generalizing base with
  | nil => rwa [Config.merge]
  | cons e more ih =>
      rw [Config.merge]
      exact ih (h.put _ _)

/-- The value under a name of one of two tables, the first of which counts. -/
theorem named?_append (es more : Entries) (name : String) :
    named? (es ++ more) name = (es.named? name).or (more.named? name) := by
  induction es with
  | nil => rfl
  | cons e es ih =>
      rw [List.cons_append, named?_cons, named?_cons, ih]
      split <;> rfl

/-- The value under a name if there is one entry more, for a new name, somewhere in a table. -/
theorem named?_insert {front back : Entries} {key : String}
    (h : named? (front ++ back) key = none) (value : Value) (name : String) :
    named? (front ++ (.text key, value) :: back) name =
      if key = name then some value else named? (front ++ back) name := by
  rw [named?_append] at h
  rw [named?_append, named?_append, named?_cons]
  simp only [Value.name?, Option.some.injEq]
  by_cases hname : key = name
  · subst hname
    rw [(Option.or_eq_none_iff.1 h).1, if_pos rfl, if_pos rfl, Option.none_or]
  · rw [if_neg hname, if_neg hname]

/-- **The value under a name** if entries are left out by their names. -/
theorem named?_filter (keep : Option String → Bool) (es : Entries) (name : String) :
    named? (es.filter fun e => keep e.1.name?) name =
      if keep (some name) then es.named? name else none := by
  induction es with
  | nil => exact (ite_self _).symm
  | cons e es ih =>
      rw [List.filter_cons, named?_cons]
      by_cases he : e.1.name? = some name
      · rw [he, if_pos rfl]
        split
        · rw [named?_cons, if_pos he]
        · next hkeep => rw [ih, if_neg hkeep]
      · rw [if_neg he, ← ih]
        split
        · rw [named?_cons, if_neg he]
        · rfl

/-- No name comes twice if entries are left out by their names. -/
theorem Distinct.filter {es : Entries} (h : es.Distinct) (keep : Option String → Bool) :
    Distinct (es.filter fun e => keep e.1.name?) := by
  induction es with
  | nil => exact h
  | cons e es ih =>
      obtain ⟨hfirst, hrest⟩ := h
      rw [List.filter_cons]
      split
      · refine ⟨fun name hname => ?_, ih hrest⟩
        rw [named?_filter, hfirst name hname, ite_self]
      · exact ih hrest

/-- All keys are texts after a value was put under a key exactly if they were and the key is. -/
theorem all_isText_put (es : Entries) (key value : Value) :
    (put es key value).all (·.1.isText) = (es.all (·.1.isText) && key.isText) := by
  induction es with
  | nil => simp [put]
  | cons e es ih =>
      rw [put]
      split
      · next hsame =>
        have hkey : key.isText = e.1.isText := by
          rw [Value.isText_eq, Value.isText_eq, Value.name?_eq_of_sameKey hsame]
        rw [List.all_cons, List.all_cons, hkey]
        cases e.1.isText <;> simp
      · rw [List.all_cons, List.all_cons, ih, Bool.and_assoc]

/-- All keys are texts after a table was merged into another one exactly if all of both are. -/
theorem all_isText_merge (base more : Entries) :
    (merge base more).all (·.1.isText) = (base.all (·.1.isText) && more.all (·.1.isText)) := by
  induction more generalizing base with
  | nil => rw [merge, List.all_nil, Bool.and_true]
  | cons e more ih => rw [merge, ih, all_isText_put, List.all_cons, Bool.and_assoc]

end Entries

end ScriptScrub.Config
