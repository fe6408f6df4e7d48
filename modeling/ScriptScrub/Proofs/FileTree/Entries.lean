import ScriptScrub.Proofs.Path.Name
import ScriptScrub.FileTree.Resolve

/-!
# Entries of a tree

What stands at a place of a tree, and what becomes of it when the file at a place is given another
content: nothing but this content changes (`content?_put`), and every place holds an entry of the
same shape as before (`alike_put`). Trees whose places hold the same shapes are `Alike`.
-/

namespace ScriptScrub

namespace Entry

/-- What an entry is, whatever it holds. -/
inductive Shape where
  | file
  | link (target : String)
  | folder
deriving DecidableEq

/-- The shape of an entry. -/
def shape : Entry → Shape
  | file _ => .file
  | link target => .link target
  | folder _ => .folder

/-- The content of a file. -/
def content? : Entry → Option Bytes
  | file content => some content
  | _ => none

/-! ## Folders -/

/-- The first entry of a name. -/
theorem named?_cons (p : String × Entry) (es : List (String × Entry)) (name : String) :
    named? (p :: es) name = if p.1 = name then some p.2 else named? es name := by
  rw [named?, named?, List.find?_cons]
  by_cases h : p.1 = name
  · rw [if_pos h, beq_iff_eq.2 h, Option.map_some]
  · rw [if_neg h, beq_eq_false_iff_ne.2 h]

/-- The entry of a name after the entries of that name were replaced. -/
theorem named?_replace_self {es : List (String × Entry)} {name : String} (e : Entry)
    (h : ∃ p ∈ es, p.1 = name) :
    named? (es.map fun p => if p.1 == name then (name, e) else p) name = some e := by
  induction es with
  | nil =>
      obtain ⟨p, hp, -⟩ := h
      cases hp
  | cons p es ih =>
      rw [List.map_cons, named?_cons]
      by_cases hp : p.1 = name
      · simp [hp]
      · obtain ⟨q, hq, hname⟩ := h
        rcases List.mem_cons.1 hq with rfl | hq
        · exact absurd hname hp
        · rw [if_neg (by simp [hp]), ih ⟨q, hq, hname⟩]

/-- The entry of a name after the entries of another name were replaced. -/
theorem named?_replace_of_ne {es : List (String × Entry)} {name other : String} (e : Entry)
    (h : other ≠ name) :
    named? (es.map fun p => if p.1 == name then (name, e) else p) other = named? es other := by
  induction es with
  | nil => rfl
  | cons p es ih =>
      rw [List.map_cons, named?_cons, named?_cons, ih]
      by_cases hp : p.1 = name
      · simp [hp, h.symm]
      · simp [hp]

/-- The entry of a name after an entry was put at the end. -/
theorem named?_concat (es : List (String × Entry)) (name other : String) (e : Entry) :
    named? (es ++ [(name, e)]) other =
      (named? es other).or (if other = name then some e else none) := by
  induction es with
  | nil =>
      rw [List.nil_append, named?_cons]
      simp only [eq_comm, named?, List.find?_nil, Option.map_none, Option.none_or]
  | cons p es ih =>
      rw [List.cons_append, named?_cons, named?_cons, ih]
      split <;> rfl

/-- **The entry of a name** after an entry was given to a name. -/
theorem named?_setNamed (es : List (String × Entry)) (name other : String) (e : Entry) :
    named? (setNamed es name e) other = if other = name then some e else named? es other := by
  rw [setNamed]
  split
  · next hany =>
    by_cases ho : other = name
    · subst ho
      rw [if_pos rfl, named?_replace_self e (by simpa using hany)]
    · rw [if_neg ho, named?_replace_of_ne e ho]
  · next hany =>
    have hnone : named? es name = none := by
      rw [named?, Option.map_eq_none_iff, List.find?_eq_none]
      exact fun p hp hname => hany (List.any_eq_true.2 ⟨p, hp, hname⟩)
    rw [named?_concat]
    by_cases ho : other = name <;> simp [ho, hnone]

/-! ## Places -/

/-- What stands at the end of a way in two parts. -/
theorem get?_append (e : Entry) (p q : List String) :
    e.get? (p ++ q) = (e.get? p).bind (·.get? q) := by
  induction p generalizing e with
  | nil => rfl
  | cons name p ih =>
      rw [List.cons_append, get?, get?, Option.bind_assoc]
      exact Option.bind_congr fun c _ => ih c

/-- Only a folder has anything below it. -/
theorem shape_of_get?_cons {e c : Entry} {name : String} {p : List String}
    (h : e.get? (name :: p) = some c) : e.shape = .folder := by
  cases e with
  | folder es => rfl
  | file _ | link _ => cases h

/-- What stands at a place after the file at a place was given another content. -/
theorem get?_put {e : Entry} {x : List String} {old new : Bytes} (h : e.get? x = some (.file old))
    (p : List String) :
    ((e.put x (.file new)).get? p).map shape = (e.get? p).map shape ∧
      ((e.put x (.file new)).get? p).bind content? =
        if p = x then some new else (e.get? p).bind content? := by
  induction x generalizing e p with
  | nil =>
      cases h
      cases p with
      | nil => exact ⟨rfl, rfl⟩
      | cons name p => exact ⟨rfl, rfl⟩
  | cons name x ih =>
      obtain ⟨c, hc, hx⟩ := Option.bind_eq_some_iff.1 h
      rw [put, hc, Option.getD_some]
      cases p with
      | nil =>
          refine ⟨?_, ?_⟩
          · rw [get?, get?, Option.map_some, Option.map_some, shape_of_get?_cons h]
            rfl
          · rw [if_neg (List.cons_ne_nil _ _).symm, get?, get?, Option.bind_some,
              Option.bind_some]
            cases e with
            | folder es => rfl
            | file _ | link _ => cases h
      | cons other p =>
          rw [get?, get?, children, named?_setNamed]
          by_cases ho : other = name
          · subst ho
            rw [if_pos rfl, hc, Option.bind_some, Option.bind_some]
            simpa using ih hx p
          · rw [if_neg ho, if_neg (by simp [ho])]
            exact ⟨rfl, rfl⟩

end Entry

namespace FileTree

/-- The shape of the entry at a place. -/
def shape? (t : FileTree) (place : List String) : Option Entry.Shape :=
  (t.get? place).map Entry.shape

/-- The content of the file at a place. -/
def content? (t : FileTree) (place : List String) : Option Bytes :=
  (t.get? place).bind Entry.content?

/-- Every place holds the same shape in both trees. -/
def Alike (t t' : FileTree) : Prop := ∀ place, t'.shape? place = t.shape? place

variable {t t' t'' : FileTree}

/-- A tree is like itself. -/
theorem Alike.refl (t : FileTree) : Alike t t := fun _ => rfl

/-- A tree that is like one that is like another. -/
theorem Alike.trans (h : Alike t t') (h' : Alike t' t'') : Alike t t'' :=
  fun place => (h' place).trans (h place)

/-- There is a file at a place exactly if there is a content. -/
theorem content?_eq_some {place : List String} {content : Bytes} :
    t.content? place = some content ↔ t.get? place = some (.file content) := by
  rw [content?, Option.bind_eq_some_iff]
  constructor
  · rintro ⟨e, he, hcontent⟩
    cases e with
    | file c =>
        cases hcontent
        exact he
    | link _ | folder _ => cases hcontent
  · exact fun h => ⟨_, h, rfl⟩

/-- There is a link at a place exactly if its shape is one. -/
theorem shape?_eq_link {place : List String} {target : String} :
    t.shape? place = some (.link target) ↔ t.get? place = some (.link target) := by
  rw [shape?, Option.map_eq_some_iff]
  constructor
  · rintro ⟨e, he, hshape⟩
    cases e with
    | link _ =>
        cases hshape
        exact he
    | file _ | folder _ => cases hshape
  · exact fun h => ⟨_, h, rfl⟩

/-- The root of the tree after the file at a place was given another content. -/
theorem root_put {x : List String} {old new : Bytes} (h : t.get? x = some (.file old)) :
    (t.put x (.file new)).root = t.root.put x (.file new) := by
  cases x with
  | nil => cases h
  | cons name x => rfl

/-- **Giving a file another content changes this content** and no other. -/
theorem content?_put {x : List String} {old new : Bytes} (h : t.get? x = some (.file old))
    (place : List String) :
    (t.put x (.file new)).content? place = if place = x then some new else t.content? place := by
  rw [content?, get?, root_put h]
  exact (Entry.get?_put h place).2

/-- **Giving a file another content leaves the tree like it was.** -/
theorem alike_put {x : List String} {old new : Bytes} (h : t.get? x = some (.file old)) :
    Alike t (t.put x (.file new)) := by
  intro place
  rw [shape?, get?, root_put h]
  exact (Entry.get?_put h place).1

end FileTree

end ScriptScrub
