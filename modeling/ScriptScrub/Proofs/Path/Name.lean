import Mathlib.Data.List.Basic
import ScriptScrub.Path.Name

/-!
# Names and paths

The absolute path along some names is made of these names (`parts_absolute`), provided that they are
names that an entry of a folder can have. So different places have different absolute paths
(`absolute_inj`). The same is so for relative paths (`segments_relative`, `relative_inj`); the path
of what is below a folder begins with the path of the folder and a slash (`toList_relative_append`).
Whatever the path, its components are such names, but for those that lead up (`mem_parts`). Paths
are ordered by their characters (`pairwise_mergeSort`).
-/

namespace ScriptScrub.Path

/-- An entry of a folder can have this name: it is not empty, no run of dots that stands for a
folder, and has no slash. -/
def IsName (name : String) : Prop := name ≠ "" ∧ name ≠ "." ∧ name ≠ ".." ∧ '/' ∉ name.toList

instance (name : String) : Decidable (IsName name) :=
  inferInstanceAs (Decidable (name ≠ "" ∧ name ≠ "." ∧ name ≠ ".." ∧ '/' ∉ name.toList))

/-- The absolute path along some names begins with a slash. -/
theorem isAbsolute_absolute (names : List String) : isAbsolute (absolute names) = true := by
  rw [isAbsolute, String.startsWith_string_iff, absolute, String.toList_append]
  exact List.prefix_append _ _

/-- The characters of an absolute path, cut at the slashes. -/
theorem segments_absolute {names : List String} (h : ∀ n ∈ names, IsName n) (hne : names ≠ []) :
    segments (absolute names) = "" :: names := by
  have hslash : ∀ l ∈ [] :: names.map String.toList, '/' ∉ l := by
    intro l hl
    rcases List.mem_cons.1 hl with rfl | hl
    · exact List.not_mem_nil
    · obtain ⟨n, hn, rfl⟩ := List.mem_map.1 hl
      exact (h n hn).2.2.2
  have hchars : (absolute names).toList = ['/'].intercalate ([] :: names.map String.toList) := by
    obtain ⟨n, ns, rfl⟩ := List.exists_cons_of_ne_nil hne
    rw [absolute, String.toList_append, String.toList_intercalate, List.map_cons]
    rfl
  rw [segments, hchars, List.splitOn_intercalate '/' hslash (List.cons_ne_nil _ _), List.map_cons,
    List.map_map]
  simp

/-- **The components of an absolute path** are the names that it leads along. -/
theorem parts_absolute {names : List String} (h : ∀ n ∈ names, IsName n) :
    parts (absolute names) = names := by
  rcases List.eq_nil_or_concat names with rfl | ⟨ns, n, rfl⟩
  · decide +kernel
  · rw [parts, segments_absolute h (by simp), List.filter_cons_of_neg (by simp)]
    refine List.filter_eq_self.2 fun m hm => ?_
    have hname := h m hm
    rw [Bool.and_eq_true, bne_iff_ne, bne_iff_ne]
    exact ⟨hname.1, hname.2.1⟩

/-- The texts between the slashes of a path have no slash, and only characters of the path. -/
theorem mem_splitOn_slash {cs part : List Char} (h : part ∈ cs.splitOn '/') :
    '/' ∉ part ∧ part ⊆ cs := by
  induction cs generalizing part with
  | nil => simp_all
  | cons c cs ih =>
      rw [List.splitOn_cons_eq_if_modifyHead] at h
      split at h
      · rcases List.mem_cons.1 h with rfl | h
        · simp
        · exact (ih h).imp_right fun hsub => List.subset_cons_of_subset c hsub
      · next hc =>
        obtain ⟨first, rest, heq⟩ := List.exists_cons_of_ne_nil (List.splitOn_ne_nil '/' cs)
        rw [heq] at h ih
        rcases List.mem_cons.1 h with rfl | h
        · obtain ⟨hslash, hsub⟩ := ih (.head _)
          exact ⟨List.not_mem_cons_of_ne_of_not_mem (fun heq => hc (beq_iff_eq.2 heq.symm)) hslash,
            List.cons_subset_cons c hsub⟩
        · exact (ih (.tail _ h)).imp_right fun hsub => List.subset_cons_of_subset c hsub

/-- The components of a path are names, but for those that lead up, and have only characters of the
path. -/
theorem mem_parts {path name : String} (h : name ∈ parts path) :
    (name ≠ ".." → IsName name) ∧ name.toList ⊆ path.toList := by
  rw [parts, List.mem_filter, Bool.and_eq_true, bne_iff_ne, bne_iff_ne, segments,
    List.mem_map] at h
  obtain ⟨⟨part, hpart, rfl⟩, hempty, hdot⟩ := h
  obtain ⟨hslash, hsub⟩ := mem_splitOn_slash hpart
  rw [String.toList_ofList]
  exact ⟨fun hup => ⟨hempty, hdot, hup, by rwa [String.toList_ofList]⟩, hsub⟩

/-- **Absolute paths tell places apart.** -/
theorem absolute_inj {names names' : List String} (h : ∀ n ∈ names, IsName n)
    (h' : ∀ n ∈ names', IsName n) (heq : absolute names = absolute names') : names = names' := by
  rw [← parts_absolute h, heq, parts_absolute h']

/-! ## Relative paths -/

/-- The characters of a path along some names. -/
theorem toList_relative {names : List String} (hne : names ≠ []) :
    (relative names).toList = ['/'].intercalate (names.map String.toList) := by
  rw [relative, if_neg (by simp [hne]), String.toList_intercalate]
  rfl

/-- **A path in two parts** has a slash between them. -/
theorem toList_relative_append {names names' : List String} (hne : names ≠ [])
    (hne' : names' ≠ []) :
    (relative (names ++ names')).toList =
      (relative names).toList ++ '/' :: (relative names').toList := by
  rw [toList_relative hne, toList_relative hne', toList_relative (by simp [hne]), List.map_append]
  induction names with
  | nil => exact absurd rfl hne
  | cons n ns ih =>
      cases ns with
      | nil =>
          obtain ⟨m, ms, rfl⟩ := List.exists_cons_of_ne_nil hne'
          simp
      | cons m ms =>
          have := ih (by simp)
          simp_all

/-- The components of a path along some names are these names. -/
theorem segments_relative {names : List String} (h : ∀ n ∈ names, IsName n) (hne : names ≠ []) :
    segments (relative names) = names := by
  have hslash : ∀ l ∈ names.map String.toList, '/' ∉ l := by
    intro l hl
    obtain ⟨n, hn, rfl⟩ := List.mem_map.1 hl
    exact (h n hn).2.2.2
  rw [segments, toList_relative hne, List.splitOn_intercalate '/' hslash (by simpa using hne),
    List.map_map]
  simp

/-- **Relative paths tell places apart.** -/
theorem relative_inj {names names' : List String} (h : ∀ n ∈ names, IsName n)
    (h' : ∀ n ∈ names', IsName n) (hne : names ≠ []) (hne' : names' ≠ [])
    (heq : relative names = relative names') : names = names' := by
  rw [← segments_relative h hne, heq, segments_relative h' hne']

/-- A path along some names is no dot. -/
theorem relative_ne_dot {names : List String} (h : ∀ n ∈ names, IsName n) (hne : names ≠ []) :
    relative names ≠ "." := by
  intro heq
  have hdot : names = ["."] := by
    rw [← segments_relative h hne, heq]
    decide +kernel
  exact (h "." (by simp [hdot])).2.1 rfl

/-- A path along some names begins with the characters of the first name. -/
theorem prefix_relative (n : String) (names : List String) :
    n.toList <+: (relative (n :: names)).toList := by
  rcases eq_or_ne names [] with rfl | hne
  · simp [toList_relative]
  · rw [← List.singleton_append, toList_relative_append (by simp) hne]
    exact (by simp [toList_relative] : n.toList = (relative [n]).toList) ▸ List.prefix_append _ _

/-- A path along some names ends with the characters of the last name. -/
theorem suffix_relative (names : List String) (n : String) :
    n.toList <:+ (relative (names ++ [n])).toList := by
  rcases eq_or_ne names [] with rfl | hne
  · simp [toList_relative]
  · rw [toList_relative_append hne (by simp)]
    have hlast : (relative [n]).toList = n.toList := by simp [toList_relative]
    rw [hlast]
    exact (List.suffix_cons _ _).trans (List.suffix_append _ _)

/-- A text ends with another one exactly if its characters do. -/
theorem endsWith_iff {text ending : String} :
    text.endsWith ending = true ↔ ending.toList <:+ text.toList := by
  rw [String.endsWith_eq_endsWith_toSlice, String.Slice.endsWith_string_iff, String.copy_toSlice]

/-- **What follows the last slash** of a path is the end of it. -/
theorem baseName_suffix (path : String) : (baseName path).toList <:+ path.toList := by
  rcases List.eq_nil_or_concat (segments path) with hnil | ⟨names, n, heq⟩
  · rw [baseName, hnil]
    exact List.nil_suffix
  · rw [List.concat_eq_append] at heq
    have hpath : (relative (segments path)).toList = path.toList := by
      rw [toList_relative (by simp [heq]), segments, List.map_map]
      simp [Function.comp_def, List.intercalate_splitOn]
    rw [baseName, heq, List.getLastD_concat, ← hpath, heq]
    exact suffix_relative names n

/-- A path along some names has no slash at its end. -/
theorem endsWith_relative {names : List String} (h : ∀ n ∈ names, IsName n) (hne : names ≠ []) :
    (relative names).endsWith "/" = false := by
  rcases List.eq_nil_or_concat names with rfl | ⟨names, n, rfl⟩
  · exact absurd rfl hne
  · rw [List.concat_eq_append] at h ⊢
    obtain ⟨hempty, -, -, hslash⟩ := h n (by simp)
    rw [Bool.eq_false_iff]
    intro hends
    rw [endsWith_iff] at hends
    rcases List.suffix_or_suffix_of_suffix hends (suffix_relative names n) with hsuffix | hsuffix
    · exact hslash (hsuffix.subset (by simp))
    · obtain ⟨c, hc⟩ := List.exists_mem_of_ne_nil _ (mt String.toList_eq_nil_iff.1 hempty)
      have : c = '/' := by simpa using hsuffix.subset hc
      exact hslash (this ▸ hc)

/-- **Paths that are put in order** are in ascending order. -/
theorem pairwise_mergeSort (paths : List String) :
    (paths.mergeSort fun a b => decide (a ≤ b)).Pairwise (· ≤ ·) := by
  refine (List.pairwise_mergeSort (fun a b c hab hbc => ?_) (fun a b => ?_) paths).imp
    of_decide_eq_true
  · exact decide_eq_true (String.le_trans (of_decide_eq_true hab) (of_decide_eq_true hbc))
  · rw [Bool.or_eq_true, decide_eq_true_eq, decide_eq_true_eq]
    exact String.le_total a b

end ScriptScrub.Path
