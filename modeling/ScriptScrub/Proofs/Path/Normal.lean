import Mathlib.Data.List.Induction
import Mathlib.Logic.Relation
import ScriptScrub.Proofs.FileTree.Resolve

/-!
# Spellings of a path

A place can be spelled in many ways: empty components and single dots say nothing, two dots take
back the name before them, and at the root of all files they say nothing either. A spelling is
shortened by leaving out one of these (`Shortens`) until there are only names (`Normal`). Whatever
is left out first, the names in the end are the place to which the path leads by name alone
(`normal_iff`), and in a tree without links the path is resolved to this place
(`LinkFree.resolve_eq_ok_iff`).
-/

namespace ScriptScrub

namespace Path

/-- A spelling of an absolute path is shortened: a component that says nothing is left out, or a
name together with the two dots that take it back, or two dots at the root. -/
inductive Shortens : List String → List String → Prop
  | idle {before after : List String} {part : String} (hpart : part = "" ∨ part = ".") :
      Shortens (before ++ part :: after) (before ++ after)
  | back {before after : List String} {name : String} (hname : IsName name) :
      Shortens (before ++ name :: ".." :: after) (before ++ after)
  | root {after : List String} : Shortens (".." :: after) after

/-- The normal form of a spelling: it was shortened until there are only names. -/
structure Normal (spelling place : List String) : Prop where
  shortened : Relation.ReflTransGen Shortens spelling place
  names : ∀ n ∈ place, IsName n

/-- The place to which a spelling leads by name alone. -/
def reduced (spelling : List String) : List String :=
  follow [] (spelling.filter fun part => part != "" && part != ".")

/-- Going along two paths, one after the other. -/
theorem follow_append (base path path' : List String) :
    follow base (path ++ path') = follow (follow base path) path' :=
  List.foldl_append

/-- One component more. -/
theorem reduced_concat (spelling : List String) (part : String) :
    reduced (spelling ++ [part]) =
      if part = "" ∨ part = "." then reduced spelling
      else if part = ".." then (reduced spelling).dropLast else reduced spelling ++ [part] := by
  rw [reduced, List.filter_append, follow_append, ← reduced]
  by_cases hidle : part = "" ∨ part = "."
  · rw [if_pos hidle]
    rcases hidle with rfl | rfl <;> rfl
  · rw [if_neg hidle]
    rw [not_or] at hidle
    rw [List.filter_cons_of_pos (by simp [hidle])]
    rfl

/-- **Shortening a spelling** does not change where it leads. -/
theorem Shortens.reduced_eq {spelling shorter : List String} (h : Shortens spelling shorter) :
    reduced spelling = reduced shorter := by
  cases h with
  | idle hpart => rcases hpart with rfl | rfl <;> simp [reduced]
  | @back before after name hname =>
      obtain ⟨hempty, hdot, hup, -⟩ := hname
      simp [reduced, follow, hempty, hdot, hup]
  | root => simp [reduced, follow]

/-- Shortening a spelling again and again does not change where it leads. -/
theorem reduced_eq_of_shortened {spelling shorter : List String}
    (h : Relation.ReflTransGen Shortens spelling shorter) : reduced spelling = reduced shorter := by
  induction h with
  | refl => rfl
  | tail _ hstep ih => exact ih.trans hstep.reduced_eq

/-- What follows a spelling does not hinder it from being shortened. -/
theorem Shortens.append {spelling shorter : List String} (h : Shortens spelling shorter)
    (more : List String) : Shortens (spelling ++ more) (shorter ++ more) := by
  cases h with
  | idle hpart =>
      rw [List.append_assoc, List.append_assoc]
      exact .idle hpart
  | back hname =>
      rw [List.append_assoc, List.append_assoc]
      exact .back hname
  | root => exact .root

/-- A spelling leads along names. -/
theorem isName_reduced {spelling : List String} (h : ∀ part ∈ spelling, '/' ∉ part.toList) :
    ∀ n ∈ reduced spelling, IsName n := by
  refine follow_mem nofun fun part hpart hup => ?_
  obtain ⟨hmem, hkept⟩ := List.mem_filter.1 hpart
  rw [Bool.and_eq_true, bne_iff_ne, bne_iff_ne] at hkept
  exact ⟨hkept.1, hkept.2, hup, h part hmem⟩

/-- **A spelling can be shortened** to the place where it leads. -/
theorem shortens_reduced {spelling : List String} (h : ∀ part ∈ spelling, '/' ∉ part.toList) :
    Relation.ReflTransGen Shortens spelling (reduced spelling) := by
  induction spelling using List.reverseRecOn with
  | nil => exact .refl
  | append_singleton spelling part ih =>
      rw [List.forall_mem_append] at h
      have hfirst :
          Relation.ReflTransGen Shortens (spelling ++ [part]) (reduced spelling ++ [part]) :=
        (ih h.1).lift (· ++ [part]) fun _ _ hshort => hshort.append _
      rw [reduced_concat]
      split
      · next hidle => simpa using hfirst.tail (.idle hidle)
      split
      · next hup =>
        subst hup
        rcases List.eq_nil_or_concat (reduced spelling) with hnil | ⟨names, name, hnames⟩
        · rw [hnil] at hfirst ⊢
          exact hfirst.tail .root
        · -- The last name is taken back.
          have hname : IsName name := isName_reduced h.1 name (by simp [hnames])
          rw [hnames, List.concat_eq_append, List.append_assoc] at hfirst
          rw [hnames, List.concat_eq_append, List.dropLast_concat]
          simpa using hfirst.tail (.back hname)
      · exact hfirst

/-- Names lead along themselves. -/
theorem reduced_of_names {names : List String} (h : ∀ n ∈ names, IsName n) :
    reduced names = names := by
  rw [reduced, List.filter_eq_self.2 fun n hn => by simp [(h n hn).1, (h n hn).2.1],
    follow_eq fun n hn => (h n hn).2.2.1, List.nil_append]

/-- **There is one normal form** of a spelling, and this is where it leads by name alone. -/
theorem normal_iff {spelling place : List String} (h : ∀ part ∈ spelling, '/' ∉ part.toList) :
    Normal spelling place ↔ reduced spelling = place := by
  constructor
  · rintro ⟨hshortened, hnames⟩
    rw [reduced_eq_of_shortened hshortened, reduced_of_names hnames]
  · rintro rfl
    exact ⟨shortens_reduced h, isName_reduced h⟩

/-- There are no two normal forms of a spelling. -/
theorem Normal.unique {spelling place place' : List String} (h : Normal spelling place)
    (h' : Normal spelling place') : place = place' := by
  rw [← reduced_of_names h.names, ← reduced_of_names h'.names,
    ← reduced_eq_of_shortened h.shortened, reduced_eq_of_shortened h'.shortened]

/-! ## Paths seen from a folder -/

/-- The absolute path that a path stands for, seen from a folder. -/
def spelled (base : List String) (path : String) : String :=
  if isAbsolute path then path else absolute base ++ "/" ++ path

/-- The components of a path have no slash. -/
theorem slash_not_mem_segments {path part : String} (h : part ∈ segments path) :
    '/' ∉ part.toList := by
  obtain ⟨cs, hcs, rfl⟩ := List.mem_map.1 h
  rw [String.toList_ofList]
  exact (mem_splitOn_slash hcs).1

/-- The components of two paths with a slash between them. -/
theorem segments_append (path path' : String) :
    segments (path ++ "/" ++ path') = segments path ++ segments path' := by
  rw [segments, segments, segments, ← List.map_append, ← List.splitOn_append_cons_self,
    String.toList_append, String.toList_append, List.append_assoc]
  rfl

/-- Every path has a normal form. -/
theorem exists_normal (path : String) : ∃ place, Normal (segments path) place :=
  ⟨_, (normal_iff fun _ => slash_not_mem_segments).2 rfl⟩

/-- What a path stands for leads where the path leads from the folder. -/
theorem reduced_spelled {base : List String} (hbase : ∀ n ∈ base, IsName n) (path : String) :
    reduced (segments (spelled base path)) =
      follow (if isAbsolute path then [] else base) (parts path) := by
  rw [spelled]
  split
  · rfl
  · have hparts : parts (absolute base ++ "/" ++ path) = base ++ parts path := by
      rw [parts, segments_append, List.filter_append, ← parts, ← parts, parts_absolute hbase]
    rw [reduced, ← parts, hparts, follow_append, follow_eq fun n hn => (hbase n hn).2.2.1,
      List.nil_append]

end Path

/-- **In a tree without links a path is resolved to its normal form.** -/
theorem FileTree.LinkFree.resolve_eq_ok_iff {t : FileTree} (hfree : t.LinkFree)
    {base place : List String} (hbase : ∀ n ∈ base, Path.IsName n) {path : String} :
    t.resolve base path = .ok place ↔
      Path.Normal (Path.segments (Path.spelled base path)) place := by
  rw [Path.normal_iff fun _ => Path.slash_not_mem_segments, Path.reduced_spelled hbase,
    hfree.resolve, Except.ok.injEq]

end ScriptScrub
