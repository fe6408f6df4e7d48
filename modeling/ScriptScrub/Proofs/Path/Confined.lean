import ScriptScrub.Proofs.Path.Dotfiles
import ScriptScrub.Proofs.Path.Normal

/-!
# Paths that lead out of the root

In a tree without links a matcher sees a path if its normal form leads to the root or below it, name
by name, and it sees it as the names that are left (`Matcher.relative_eq_some_iff`). So all that it
says of a path (`Matcher.verdict`) is told by the normal form, however the path is spelled, and what
it accepts lies strictly below the root (`stays_below_root`).
-/

namespace ScriptScrub.Path

/-- The path along some names is not absolute. -/
theorem isAbsolute_relative {names : List String} (h : ∀ n ∈ names, IsName n) :
    isAbsolute (relative names) = false := by
  rw [isAbsolute, Bool.eq_false_iff]
  intro hstart
  rw [String.startsWith_string_iff] at hstart
  rcases names with _ | ⟨n, names⟩
  · simp [relative] at hstart
  · obtain ⟨hempty, -, -, hslash⟩ := h n (.head _)
    rcases List.prefix_or_prefix_of_prefix hstart (prefix_relative n names) with hfirst | hfirst
    · exact hslash (hfirst.subset (by simp))
    · obtain ⟨c, hc⟩ := List.exists_mem_of_ne_nil _ (mt String.toList_eq_nil_iff.1 hempty)
      have hc' : c = '/' := by simpa using hfirst.subset hc
      exact hslash (hc' ▸ hc)

/-- The components of the path along some names are these names. -/
theorem parts_relative {names : List String} (h : ∀ n ∈ names, IsName n) :
    parts (relative names) = names := by
  rcases eq_or_ne names [] with rfl | hne
  · decide +kernel
  · rw [parts, segments_relative h hne]
    exact List.filter_eq_self.2 fun n hn => by simp [(h n hn).1, (h n hn).2.1]

/-- There is no null character in a path. -/
def IsText (path : String) : Prop := '\x00' ∉ path.toList

instance (path : String) : Decidable (IsText path) := inferInstanceAs (Decidable (_ ∉ _))

/-- There is no null character in the normal form of a path if there is none in the path, nor in the
folder that it is seen from. -/
theorem isText_of_normal {base : List String} (hbase : ∀ n ∈ base, IsName n)
    (hbaseText : ∀ n ∈ base, IsText n) {path : String} (htext : IsText path) {place : List String}
    (h : Normal (segments (spelled base path)) place) : ∀ n ∈ place, IsText n := by
  have hfollow := (normal_iff fun _ => slash_not_mem_segments).1 h
  rw [reduced_spelled hbase] at hfollow
  rw [← hfollow]
  refine follow_mem ?_ fun _ hn _ hnul => htext ((mem_parts hn).2 hnul)
  split
  · exact List.forall_mem_nil _
  · exact hbaseText

/-- There is no null character in the path along names without them. -/
theorem isText_relative {names : List String} (h : ∀ n ∈ names, IsText n) :
    IsText (relative names) := by
  rcases eq_or_ne names [] with rfl | hne
  · decide +kernel
  · intro hnul
    rcases mem_relative hne hnul with hslash | ⟨n, hn, hnul⟩
    · cases hslash
    · exact h n hn hnul

/-- What a matcher says of a path: how it is seen from the root, whether ignore and include patterns
select it, and whether it is one to look at. Patterns are not asked about a path that is not
seen. -/
structure Verdict where
  relative : Option String
  ignored : Option Bool
  included : Option Bool
  accepted : Bool
deriving Repr, DecidableEq

namespace Matcher

variable {m : Matcher} {files : FileTree}

/-- All that a matcher says of a path. -/
def verdict (m : Matcher) (files : FileTree) (path : String) (isDirectory : Bool) :
    Except LinkLoop Verdict := do
  let seen ← m.relative files path
  let accepted ← m.accepted? files path isDirectory
  return {
    relative := seen
    ignored := seen.map (m.isIgnored · isDirectory)
    included := seen.map m.isIncluded
    accepted := accepted.isSome }

/-- A path is seen as the way from the root to its normal form. -/
theorem relative_of_normal (hfree : files.LinkFree) (hroot : ∀ n ∈ m.root, IsName n)
    {path : String} (htext : IsText path) {place : List String}
    (h : Normal (segments (spelled m.root path)) place) :
    m.relative files path = .ok ((m.below? place).map Path.relative) := by
  rw [relative, if_neg (by simpa [IsText] using htext), (hfree.resolve_eq_ok_iff hroot).2 h]
  rfl

/-- **What is seen** lies at the root or below it. -/
theorem relative_eq_some_iff (hfree : files.LinkFree) (hroot : ∀ n ∈ m.root, IsName n)
    {path : String} (htext : IsText path) {seen : String} :
    m.relative files path = .ok (some seen) ↔
      ∃ names, Normal (segments (spelled m.root path)) (m.root ++ names) ∧
        seen = Path.relative names := by
  obtain ⟨place, hplace⟩ := exists_normal (spelled m.root path)
  rw [relative_of_normal hfree hroot htext hplace, Except.ok.injEq, Option.map_eq_some_iff]
  simp only [below?_eq_some]
  constructor
  · rintro ⟨names, rfl, rfl⟩
    exact ⟨names, hplace, rfl⟩
  · rintro ⟨names, hnames, rfl⟩
    exact ⟨names, hplace.unique hnames, rfl⟩

/-- The names under which something is seen are themselves seen under these names. -/
theorem relative_relative (hfree : files.LinkFree) (hroot : ∀ n ∈ m.root, IsName n)
    {names : List String} (hnames : ∀ n ∈ names, IsName n) (htext : IsText (Path.relative names)) :
    m.relative files (Path.relative names) = .ok (some (Path.relative names)) := by
  have hplace : files.resolve m.root (Path.relative names) = .ok (m.root ++ names) := by
    rw [hfree.resolve, isAbsolute_relative hnames, if_neg Bool.false_ne_true, parts_relative hnames,
      follow_eq fun n hn => (hnames n hn).2.2.1]
  exact (relative_eq_some_iff hfree hroot htext).2
    ⟨names, (hfree.resolve_eq_ok_iff hroot).1 hplace, rfl⟩

/-- What a matcher accepts is what it sees, if it is one to look at. -/
theorem accepted?_of_relative {path : String} {seen : Option String}
    (h : m.relative files path = .ok seen) (isDirectory : Bool) :
    m.accepted? files path isDirectory = .ok (seen.filter (m.accepts · isDirectory)) := by
  rw [accepted?, h]
  rfl

/-- All that a matcher says of a path follows from how it is seen. -/
theorem verdict_of_relative {path : String} {seen : Option String}
    (h : m.relative files path = .ok seen) (isDirectory : Bool) :
    m.verdict files path isDirectory = .ok {
      relative := seen
      ignored := seen.map (m.isIgnored · isDirectory)
      included := seen.map m.isIncluded
      accepted := (seen.filter (m.accepts · isDirectory)).isSome } := by
  rw [verdict, accepted?_of_relative h, h]
  rfl

/-- **What is accepted** lies strictly below the root. -/
theorem below_of_accepted? (hfree : files.LinkFree) (hroot : ∀ n ∈ m.root, IsName n)
    {path seen : String} {isDirectory : Bool}
    (h : m.accepted? files path isDirectory = .ok (some seen)) :
    ∃ names, names ≠ [] ∧ Normal (segments (spelled m.root path)) (m.root ++ names) ∧
      seen = Path.relative names := by
  obtain ⟨names, hplace, rfl, haccepts⟩ := exists_of_accepted? h
  exact ⟨names, ne_nil_of_accepts haccepts, (hfree.resolve_eq_ok_iff hroot).1 hplace, rfl⟩

/-- Nothing is accepted that does not lie strictly below the root. -/
theorem accepted?_eq_none (hfree : files.LinkFree) (hroot : ∀ n ∈ m.root, IsName n)
    {path : String} (htext : IsText path) {place : List String}
    (hplace : Normal (segments (spelled m.root path)) place)
    (hout : ∀ names, place = m.root ++ names → names = []) (isDirectory : Bool) :
    m.accepted? files path isDirectory = .ok none := by
  cases haccepted : m.accepted? files path isDirectory with
  | error l =>
      rw [accepted?_of_relative (relative_of_normal hfree hroot htext hplace)] at haccepted
      cases haccepted
  | ok seen =>
      cases seen with
      | none => rfl
      | some p =>
          obtain ⟨names, hne, hnames, -⟩ := below_of_accepted? hfree hroot haccepted
          exact absurd (hout names (hplace.unique hnames)) hne

end Matcher

/-- What a matcher makes of a path: it goes by the normal form, and stays below its root. -/
structure Confines (m : Matcher) (files : FileTree) (path : String) : Prop where
  /-- The path has a normal form. -/
  normal : ∃ place, Normal (segments (spelled m.root path)) place
  /-- It is seen exactly if the normal form leads to the root or below it, name by name, and then as
  the names that are left. -/
  seen : ∀ seen, m.relative files path = .ok (some seen) ↔
    ∃ names, Normal (segments (spelled m.root path)) (m.root ++ names) ∧ seen = relative names
  /-- It is seen as a single dot or as a path that is made of names, which is seen as itself. -/
  tidy : ∀ seen, m.relative files path = .ok (some seen) →
    (seen ≠ "." → ∀ part ∈ segments seen, part ≠ "" ∧ part ≠ "." ∧ part ≠ "..") ∧
      m.relative files seen = .ok (some seen)
  /-- The same is said of all paths with the same normal form. -/
  alike : ∀ isDirectory, ∃ v, m.verdict files path isDirectory = .ok v ∧
    ∀ path', IsText path' → ∀ place, Normal (segments (spelled m.root path)) place →
      Normal (segments (spelled m.root path')) place → m.verdict files path' isDirectory = .ok v
  /-- If it is accepted, it lies strictly below the root. -/
  below : ∀ isDirectory seen, m.accepted? files path isDirectory = .ok (some seen) →
    ∃ names, names ≠ [] ∧ Normal (segments (spelled m.root path)) (m.root ++ names) ∧
      seen = relative names
  /-- The root itself is not accepted. -/
  not_root : Normal (segments (spelled m.root path)) m.root →
    ∀ isDirectory, m.accepted? files path isDirectory = .ok none
  /-- Nothing is accepted that lies at or below a name that begins with the name of the root. -/
  not_beside : ∀ folder name more rest, m.root = folder ++ [name] → more ≠ "" →
    Normal (segments (spelled m.root path)) (folder ++ (name ++ more) :: rest) →
    ∀ isDirectory, m.accepted? files path isDirectory = .ok none

/-- **A matcher stays below its root.** In a tree without links, let the root be given by any
absolute path. It is the normal form of this path, and every path is seen by its normal form alone.
What is accepted lies strictly below the root: neither the root itself nor what is beside it under a
longer name. -/
theorem stays_below_root {files : FileTree} (hfree : files.LinkFree) {rootPath : String}
    (habsolute : isAbsolute rootPath = true) (hrootText : IsText rootPath) {m : Matcher}
    (hroot : files.resolve [] rootPath = .ok m.root) :
    Normal (segments rootPath) m.root ∧ ∀ path, IsText path → Confines m files path := by
  have hspelled : spelled [] rootPath = rootPath := if_pos habsolute
  have hnormal := (hfree.resolve_eq_ok_iff (List.forall_mem_nil _)).1 hroot
  rw [hspelled] at hnormal
  have hnames := hnormal.names
  have htexts := isText_of_normal (List.forall_mem_nil _) (List.forall_mem_nil _) hrootText
    (hspelled.symm ▸ hnormal)
  refine ⟨hnormal, fun path htext => ⟨exists_normal _, fun seen =>
    Matcher.relative_eq_some_iff hfree hnames htext, fun seen hseen => ?tidy,
    fun isDirectory => ?alike,
    fun isDirectory seen => Matcher.below_of_accepted? hfree hnames, fun hplace =>
    Matcher.accepted?_eq_none hfree hnames htext hplace fun names heq => by simpa using heq,
    fun folder name more rest hfolder hmore hplace =>
    Matcher.accepted?_eq_none hfree hnames htext hplace fun names heq => ?beside⟩⟩
  case tidy =>
    obtain ⟨names, hplace, rfl⟩ := (Matcher.relative_eq_some_iff hfree hnames htext).1 hseen
    have hbelow : ∀ n ∈ names, IsName n := fun n hn => hplace.names n (List.mem_append_right _ hn)
    have hbelowText : ∀ n ∈ names, IsText n := fun n hn =>
      isText_of_normal hnames htexts htext hplace n (List.mem_append_right _ hn)
    refine ⟨fun hdot part hpart => ?_, Matcher.relative_relative hfree hnames hbelow
      (isText_relative hbelowText)⟩
    have hne : names ≠ [] := fun hnil => hdot (by rw [hnil]; rfl)
    rw [segments_relative hbelow hne] at hpart
    exact ⟨(hbelow part hpart).1, (hbelow part hpart).2.1, (hbelow part hpart).2.2.1⟩
  case alike =>
    obtain ⟨place, hplace⟩ := exists_normal (spelled m.root path)
    have hverdict := fun {path' : String} (htext' : IsText path')
        (h : Normal (segments (spelled m.root path')) place) =>
      Matcher.verdict_of_relative (Matcher.relative_of_normal hfree hnames htext' h) isDirectory
    refine ⟨_, hverdict htext hplace, fun path' htext' place' hplace' hpath' => ?_⟩
    exact hverdict htext' (hplace.unique hplace' ▸ hpath')
  case beside =>
    -- The name beside the root would be the last name of the root.
    rw [hfolder, List.append_assoc, List.append_cancel_left_eq] at heq
    obtain ⟨hname, -⟩ := List.cons.inj heq
    exact absurd (by simpa using hname) hmore

/-- A root is given with a dot and a slash at its end. A path climbs out of it and comes back, and
so is seen like the same file named plainly; one that comes back to a longer name is not
accepted. -/
theorem stays_below_root_spellings :
    FileTree.LinkFree {} ∧ isAbsolute "/srv/./app/" = true ∧ IsText "/srv/./app/" ∧
    ∃ m, Matcher.read ["srv", "app"] ["*.js"] [] true = .ok m ∧
      FileTree.resolve {} [] "/srv/./app/" = .ok m.root ∧
      IsText "lib/../../app//a.js" ∧ IsText "/srv/app/a.js" ∧ IsText "../apple/a.js" ∧
      m.relative {} "lib/../../app//a.js" = .ok (some "a.js") ∧
      m.verdict {} "lib/../../app//a.js" false = m.verdict {} "/srv/app/a.js" false ∧
      m.accepted? {} "../apple/a.js" false = .ok none := by
  obtain ⟨m, hread⟩ : ∃ m, Matcher.read ["srv", "app"] ["*.js"] [] true = .ok m := ⟨_, rfl⟩
  have hroot : m.root = ["srv", "app"] := by
    obtain ⟨_, -, h⟩ := bind_eq_ok.1 hread
    obtain ⟨_, -, h⟩ := bind_eq_ok.1 h
    cases h
    rfl
  have hresolve : FileTree.resolve {} [] "/srv/./app/" = .ok m.root := by
    rw [hroot, FileTree.LinkFree.resolve (by decide +kernel)]
    exact congrArg Except.ok (by decide +kernel)
  obtain ⟨-, hall⟩ := stays_below_root (by decide +kernel) (by decide +kernel) (by decide +kernel)
    hresolve
  have hnormal : ∀ path place, reduced (segments (spelled ["srv", "app"] path)) = place →
      Normal (segments (spelled m.root path)) place := by
    intro path place h
    rw [hroot]
    exact (normal_iff fun _ => slash_not_mem_segments).2 h
  have hclimb := hnormal "lib/../../app//a.js" ["srv", "app", "a.js"] (by decide +kernel)
  have hplain := hnormal "/srv/app/a.js" ["srv", "app", "a.js"] (by decide +kernel)
  have hbeside := hnormal "../apple/a.js" (["srv"] ++ ("app" ++ "le") :: ["a.js"])
    (by decide +kernel)
  have htexts : IsText "lib/../../app//a.js" ∧ IsText "/srv/app/a.js" ∧ IsText "../apple/a.js" := by
    decide +kernel
  obtain ⟨v, hv, hsame⟩ := (hall _ htexts.1).alike false
  refine ⟨by decide +kernel, by decide +kernel, by decide +kernel, m, hread, hresolve, htexts.1,
    htexts.2.1, htexts.2.2, ?_, ?_, ?_⟩
  · refine ((hall _ htexts.1).seen _).2 ⟨["a.js"], ?_, by decide +kernel⟩
    rw [hroot] at hclimb ⊢
    exact hclimb
  · rw [hv, hsame _ htexts.2.1 _ hclimb hplain]
  · exact (hall _ htexts.2.2).not_beside ["srv"] "app" "le" ["a.js"] hroot (by decide +kernel)
      hbeside false

end ScriptScrub.Path
