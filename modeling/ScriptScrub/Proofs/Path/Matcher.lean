import ScriptScrub.Path.Matcher
import ScriptScrub.Proofs.FileTree.Resolve
import ScriptScrub.Proofs.Glob.Below

/-!
# What a matcher sees

In a tree without links the files that a matcher accepts, and the paths under which it sees them,
are those of the places (`Matcher.seen?`) that are below its root: what is there does not matter
(`LinkFree.accepted?_absolute`). If its ignore patterns are plain, everything below an ignored
directory is ignored (`Matcher.isIgnored_below`), so no directory on the way to an accepted file is
(`Matcher.Plain.reaches`).
-/

namespace ScriptScrub.Path

/-- Patterns see a path along some names as it is, and so they do when something follows. -/
theorem subject_relative {names : List String} (h : ∀ n ∈ names, IsName n) (hne : names ≠ [])
    (more : List Char) :
    Glob.subject ((relative names).toList ++ more) = (relative names).toList ++ more := by
  obtain ⟨n, names, rfl⟩ := List.exists_cons_of_ne_nil hne
  obtain ⟨hempty, hdot, -, hslash⟩ := h n (by simp)
  obtain ⟨rest, hrest⟩ := prefix_relative n names
  rw [← hrest, List.append_assoc]
  have hdot' : n.toList ≠ ['.'] := fun heq => hdot (String.toList_inj.1 heq)
  rcases hcs : n.toList with _ | ⟨c, _ | ⟨d, cs⟩⟩ <;> rw [hcs] at hslash hdot'
  · exact absurd (String.toList_eq_nil_iff.1 hcs) hempty
  · unfold Glob.subject
    split <;> simp_all
  · unfold Glob.subject
    split <;> simp_all

namespace Matcher

variable {m : Matcher}

/-! ## Ignored directories -/

/-- The ignore patterns of a matcher are plain. -/
def Plain (m : Matcher) : Prop := ∀ l, m.ignored = some l → l.Plain

/-- The pattern for dotfiles is a plain one. -/
theorem isPlainText_dotfiles : Glob.PatternList.IsPlainText dotfiles := by decide +kernel

/-- **What is read of plain ignore patterns** is plain, also if dotfiles are ignored besides. -/
theorem plain_of_read {root includes ignores : List String} {ignoreDotfiles : Bool}
    (h : read root includes ignores ignoreDotfiles = .ok m)
    (hplain : ∀ text ∈ ignores, Glob.PatternList.IsPlainText text) : m.root = root ∧ m.Plain := by
  have hall : ∀ text ∈ withDotfiles ignoreDotfiles ignores, Glob.PatternList.IsPlainText text := by
    intro text htext
    unfold withDotfiles at htext
    split at htext
    · rcases List.mem_append.1 htext with htext | htext
      · exact hplain text htext
      · rw [List.mem_singleton.1 htext]
        exact isPlainText_dotfiles
    · exact hplain text htext
  obtain ⟨included, -, h⟩ := bind_eq_ok.1 h
  obtain ⟨ignored, hignored, h⟩ := bind_eq_ok.1 h
  cases h
  exact ⟨rfl, fun l hl => Glob.PatternList.plain_of_read hall (hl ▸ hignored)⟩

/-- Patterns see a directory with a slash at its end. -/
theorem subject_query {names : List String} (h : ∀ n ∈ names, IsName n) (hne : names ≠ [])
    (isDirectory : Bool) :
    Glob.subject (if isDirectory && !(Path.relative names).endsWith "/"
        then Path.relative names ++ "/" else Path.relative names).toList =
      (Path.relative names).toList ++ if isDirectory then ['/'] else [] := by
  rw [endsWith_relative h hne, Bool.not_false, Bool.and_true]
  cases isDirectory with
  | true =>
      rw [if_pos rfl, if_pos rfl, String.toList_append]
      exact subject_relative h hne _
  | false =>
      have := subject_relative h hne []
      simpa using this

/-- A directory is looked at with a slash at its end. -/
theorem slash_suffix_query (path : String) :
    ['/'] <:+ (if true && !path.endsWith "/" then path ++ "/" else path).toList := by
  split
  · exact ⟨path.toList, by simp⟩
  · next hends => simpa [endsWith_iff] using hends

/-- What is below a directory is looked at under a path that begins with that of the directory. -/
theorem query_prefix {dir names : List String} (hdir : dir ≠ []) (hne : names ≠ [])
    (isDirectory : Bool) :
    (if true && !(Path.relative dir).endsWith "/" then Path.relative dir ++ "/"
        else Path.relative dir).toList <+:
      (if isDirectory && !(Path.relative (dir ++ names)).endsWith "/"
        then Path.relative (dir ++ names) ++ "/" else Path.relative (dir ++ names)).toList := by
  have hbelow : (Path.relative dir).toList ++ ['/'] <+: (Path.relative (dir ++ names)).toList := by
    rw [toList_relative_append hdir hne]
    exact ⟨(Path.relative names).toList, by simp⟩
  refine List.IsPrefix.trans ?_ (hbelow.trans ?_)
  · split <;> simp
  · split <;> simp

/-- **Below an ignored directory everything is ignored.** -/
theorem isIgnored_below (hm : m.Plain) {dir names : List String} (hne : names ≠ [])
    (h : m.isIgnored (Path.relative dir) true = true) (isDirectory : Bool) :
    m.isIgnored (Path.relative (dir ++ names)) isDirectory = true := by
  unfold isIgnored at h ⊢
  split at h
  · cases h
  · next l hl =>
    rcases eq_or_ne dir [] with rfl | hdir
    · -- Patterns see nothing of the root, so one that selects it asks for nothing.
      have hroot : Glob.subject (if true && !(Path.relative []).endsWith "/"
          then Path.relative [] ++ "/" else Path.relative []).toList = [] := by decide +kernel
      exact (hm l hl).below (.inl hroot) (hroot ▸ List.nil_prefix) h
    · obtain ⟨more, hmore⟩ := query_prefix hdir hne isDirectory
      obtain ⟨hdirectory, hsubject⟩ := Glob.subject_directory (slash_suffix_query _) more
      exact (hm l hl).below hdirectory ⟨more, by rw [← hsubject, hmore]⟩ h

/-- Nobody looks at the root itself. -/
theorem ne_nil_of_accepts {names : List String} {isDirectory : Bool}
    (h : m.accepts (Path.relative names) isDirectory = true) : names ≠ [] := by
  rintro rfl
  simp [accepts, Path.relative] at h

/-- No directory on the way to a place below the root is ignored. -/
def Reaches (m : Matcher) (names : List String) : Prop :=
  ∀ q, q <+: names → q ≠ [] → q ≠ names → m.isIgnored (Path.relative q) true = false

/-- A directory is looked at unless it is ignored. -/
theorem accepts_directory {names : List String} (hnames : ∀ n ∈ names, IsName n)
    (hne : names ≠ []) :
    m.accepts (Path.relative names) true = !m.isIgnored (Path.relative names) true := by
  simp [accepts, relative_ne_dot hnames hne]

/-- A walk that looks at directories reaches a place exactly if none on the way is ignored. -/
theorem reaches_iff {names : List String} (hnames : ∀ n ∈ names, IsName n) :
    m.Reaches names ↔
      ∀ q, q <+: names → q ≠ [] → q ≠ names → m.accepts (Path.relative q) true = true := by
  refine forall_congr' fun q => forall_congr' fun hq => forall_congr' fun hnil =>
    forall_congr' fun _ => ?_
  rw [accepts_directory (fun n hn => hnames n (hq.subset hn)) hnil, Bool.not_eq_true']

/-- **Plain patterns ignore no directory on the way** to something that is accepted. -/
theorem Plain.reaches (hm : m.Plain) {names : List String} (hnames : ∀ n ∈ names, IsName n)
    {isDirectory : Bool} (h : m.accepts (Path.relative names) isDirectory = true) :
    m.Reaches names := by
  rintro q ⟨rest, rfl⟩ hnil hne
  have hrest : rest ≠ [] := by
    rintro rfl
    simp at hne
  rw [Bool.eq_false_iff]
  intro hignored
  simp [accepts, isIgnored_below hm hrest hignored isDirectory] at h

/-- The way from the root to a place below it. -/
theorem below?_eq_some {place names : List String} :
    m.below? place = some names ↔ place = m.root ++ names := by
  rw [below?]
  split
  · next hprefix =>
    obtain ⟨rest, rfl⟩ := List.isPrefixOf_iff_prefix.1 hprefix
    simp [eq_comm]
  · next hprefix =>
    refine iff_of_false (by simp) ?_
    rintro rfl
    exact hprefix (List.isPrefixOf_iff_prefix.2 (List.prefix_append _ _))

/-- **What is accepted** leads to a place below the root, and is seen under the path from there. -/
theorem exists_of_accepted? {files : FileTree} {path p : String} {isDirectory : Bool}
    (h : m.accepted? files path isDirectory = .ok (some p)) :
    ∃ names, files.resolve m.root path = .ok (m.root ++ names) ∧ p = Path.relative names ∧
      m.accepts p isDirectory = true := by
  obtain ⟨seen, hseen, h⟩ := bind_eq_ok.1 h
  obtain ⟨rfl, haccepts⟩ := Option.filter_eq_some_iff.1 (Except.ok.inj h)
  rw [relative] at hseen
  split at hseen
  · cases hseen
  · obtain ⟨place, hplace, hseen⟩ := bind_eq_ok.1 hseen
    obtain ⟨names, hbelow, rfl⟩ := Option.map_eq_some_iff.1 (Except.ok.inj hseen)
    rw [below?_eq_some] at hbelow
    exact ⟨names, hbelow ▸ hplace, rfl, haccepts⟩

/-! ## Files without links -/

/-- The path under which a matcher sees the file at a place, if it is one to look at. -/
def seen? (m : Matcher) (place : List String) : Option String :=
  if (absolute place).contains '\x00' then none
  else ((m.below? place).map Path.relative).filter (m.accepts · false)

/-- **What a matcher accepts** is told by the place. -/
theorem accepted?_absolute {t : FileTree} (hfree : t.LinkFree) {place : List String}
    (hplace : ∀ n ∈ place, IsName n) :
    m.accepted? t (absolute place) false = .ok (m.seen? place) := by
  rw [accepted?, relative, seen?, hfree.resolve_absolute hplace]
  split <;> rfl

/-- **A file is seen** if it is below the root and accepted by its path from there. -/
theorem seen?_eq_some {place : List String} {p : String} :
    m.seen? place = some p ↔ (absolute place).contains '\x00' = false ∧
      ∃ names, place = m.root ++ names ∧ p = Path.relative names ∧ m.accepts p false = true := by
  rw [seen?]
  split
  · next hnul => simp [hnul]
  · next hnul =>
    rw [Option.filter_eq_some_iff, Option.map_eq_some_iff]
    simp only [below?_eq_some, hnul, true_and]
    constructor
    · rintro ⟨⟨names, hplace, rfl⟩, haccepts⟩
      exact ⟨names, hplace, rfl, haccepts⟩
    · rintro ⟨names, hplace, rfl, haccepts⟩
      exact ⟨⟨names, hplace, rfl⟩, haccepts⟩

/-- **Different files are seen under different paths.** -/
theorem seen?_inj {place place' : List String} (h : ∀ n ∈ place, IsName n)
    (h' : ∀ n ∈ place', IsName n) {p : String} (hp : m.seen? place = some p)
    (hp' : m.seen? place' = some p) : place = place' := by
  obtain ⟨-, names, rfl, rfl, haccepts⟩ := seen?_eq_some.1 hp
  obtain ⟨-, names', rfl, heq, -⟩ := seen?_eq_some.1 hp'
  have hnames' : names' ≠ [] := ne_nil_of_accepts (heq ▸ haccepts)
  rw [relative_inj (fun n hn => h n (List.mem_append_right _ hn))
    (fun n hn => h' n (List.mem_append_right _ hn)) (ne_nil_of_accepts haccepts) hnames' heq]

end Matcher

end ScriptScrub.Path
