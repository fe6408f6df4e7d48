import ScriptScrub.Proofs.Path.Matcher

/-!
# Names that begin with a dot

The pattern for dotfiles is put after all other ignore patterns, so it has the last word, whatever
they take back. It selects every path with a name in it that begins with a dot, at any depth, unless
a name with a line break comes before it (`Matcher.isIgnored_of_dot`). So a matcher that ignores
dotfiles accepts no path with such a name (`Matcher.dotsHidden_of_accepts`).
-/

namespace ScriptScrub

namespace Glob

/-- What follows some directories without line breaks may be left after them. -/
theorem mem_afterSlash {started : Bool} {dir : List Char} (hdir : started = true ∨ dir ≠ [])
    (hline : '\n' ∉ dir) (rest : List Char) : rest ∈ afterSlash started (dir ++ '/' :: rest) := by
  induction dir generalizing started with
  | nil =>
      have hstarted : started = true := hdir.resolve_right (not_not_intro rfl)
      simp [afterSlash, hstarted]
  | cons c dir ih =>
      rw [List.mem_cons, not_or] at hline
      have hc : (c == '\n') = false := by simpa using Ne.symm hline.1
      rw [List.cons_append, afterSlash, hc]
      exact List.mem_append_right _ (ih (.inl rfl) hline.2)

/-- The pattern for names that begin with a dot, at any depth. -/
def dotPattern : Pattern where
  negated := false
  shape := .path [.anyDepth, .name [.literal '.', .run]]

/-- This is what the text for dotfiles is read as. -/
theorem read_dotfiles : Pattern.read (PatternList.tidy false Path.Matcher.dotfiles) =
    .ok (some dotPattern) := by
  decide +kernel

/-- **The pattern for dotfiles** selects what begins with a dot after directories without line
breaks. -/
theorem selects_dotPattern {before : List Char}
    (hbefore : before = [] ∨ ∃ dir, dir ≠ [] ∧ '\n' ∉ dir ∧ before = dir ++ ['/'])
    (rest : List Char) : dotPattern.shape.selects (before ++ '.' :: rest) = true := by
  have hdown : '.' :: rest ∈ Step.down.rests (before ++ '.' :: rest) := by
    rcases hbefore with rfl | ⟨dir, hdir, hline, rfl⟩
    · exact .head _
    · rw [List.append_assoc]
      exact .tail _ (mem_afterSlash (.inr hdir) hline _)
  obtain ⟨left, hleft, hend⟩ := exists_mem_afterRun rest
  have hclose : ∃ last, last ∈ Step.close.rests left := by
    rcases hend with rfl | ⟨after, rfl⟩
    · exact ⟨[], .head _⟩
    · exact ⟨after, .head _⟩
  obtain ⟨last, hlast⟩ := hclose
  exact readable_iff.2 ⟨last, _, hdown, rest, by simp [Step.rests, Piece.rests], left, hleft, last,
    hlast, rfl⟩

namespace PatternList

/-- **The last pattern of a list decides** where it matches. -/
theorem selects_concat {ps : List Pattern} {p : Pattern} {path : String}
    (h : p.shape.selects (subject path.toList) = true) :
    selects ⟨ps ++ [p]⟩ path = !p.negated := by
  rw [selects, List.filter_append, List.filter_singleton, h, cond_true, List.getLast?_concat]

/-- The last text is read as the last pattern. -/
theorem read_concat {texts : List String} {text : String} {p : Pattern}
    (hblank : (Text.trim text).isEmpty = false)
    (hp : Pattern.read (tidy false text) = .ok (some p)) {o : Option PatternList}
    (h : read false (texts ++ [text]) = .ok o) : ∃ ps, o = some ⟨ps ++ [p]⟩ := by
  unfold read at h
  rw [List.filter_append, List.filter_singleton, hblank, Bool.not_false, cond_true, List.map_append,
    List.map_singleton] at h
  dsimp only at h
  split at h
  · next hempty => simp at hempty
  · obtain ⟨patterns, hpatterns, h⟩ := bind_eq_ok.1 h
    obtain ⟨init, last, rfl, hlast⟩ := exists_of_mapM_concat hpatterns
    rw [hp] at hlast
    cases hlast
    cases h
    exact ⟨init.filterMap id, by simp⟩

end PatternList

end Glob

namespace Path

/-- A path along some names has their characters, and slashes. -/
theorem mem_relative {names : List String} (hne : names ≠ []) {c : Char}
    (h : c ∈ (relative names).toList) : c = '/' ∨ ∃ n ∈ names, c ∈ n.toList := by
  induction names with
  | nil => exact absurd rfl hne
  | cons n names ih =>
      rcases eq_or_ne names [] with rfl | hnames
      · exact .inr ⟨n, .head _, by simpa [toList_relative] using h⟩
      · rw [← List.singleton_append, toList_relative_append (by simp) hnames, List.mem_append,
          List.mem_cons] at h
        rcases h with h | rfl | h
        · exact .inr ⟨n, .head _, by simpa [toList_relative] using h⟩
        · exact .inl rfl
        · exact (ih hnames h).imp_right fun ⟨m, hm, hc⟩ => ⟨m, .tail _ hm, hc⟩

/-- A name begins with a dot. -/
def IsDotted (name : String) : Prop := name.toList.head? = some '.'

instance (name : String) : Decidable (IsDotted name) := inferInstanceAs (Decidable (_ = _))

/-- A name has a line break. -/
def IsBroken (name : String) : Prop := '\n' ∈ name.toList

instance (name : String) : Decidable (IsBroken name) := inferInstanceAs (Decidable (_ ∈ _))

/-- No name begins with a dot, except after one with a line break. -/
def DotsHidden (names : List String) : Prop :=
  ∀ before name after, names = before ++ name :: after → IsDotted name → ∃ n ∈ before, IsBroken n

/-- **Without line breaks** no name at all begins with a dot. -/
theorem DotsHidden.not_isDotted {names : List String} (h : DotsHidden names)
    (hline : ∀ n ∈ names, ¬ IsBroken n) : ∀ n ∈ names, ¬ IsDotted n := by
  intro n hn hdot
  obtain ⟨before, after, rfl⟩ := List.append_of_mem hn
  obtain ⟨m, hm, hbroken⟩ := h before n after rfl hdot
  exact hline m (List.mem_append_left _ hm) hbroken

namespace Matcher

variable {m : Matcher} {root includes ignores : List String}

/-- **The pattern for dotfiles is the last one**, unless it was configured in another place. -/
theorem ignored_of_read (hdot : dotfiles ∉ ignores) (h : read root includes ignores true = .ok m) :
    m.root = root ∧ ∃ ps, m.ignored = some ⟨ps ++ [Glob.dotPattern]⟩ := by
  have hwith : withDotfiles true ignores = ignores ++ [dotfiles] := by
    rw [withDotfiles, if_pos (by simpa using hdot)]
  obtain ⟨included, -, h⟩ := bind_eq_ok.1 h
  obtain ⟨ignored, hignored, h⟩ := bind_eq_ok.1 h
  cases h
  rw [hwith] at hignored
  exact ⟨rfl, Glob.PatternList.read_concat (by decide +kernel) Glob.read_dotfiles hignored⟩

/-- **A path with a name that begins with a dot is ignored**, whatever the other patterns say. -/
theorem isIgnored_of_dot (hdot : dotfiles ∉ ignores) (h : read root includes ignores true = .ok m)
    {before after : List String} {name : String}
    (hnames : ∀ n ∈ before ++ name :: after, IsName n) (hname : IsDotted name)
    (hline : ∀ n ∈ before, ¬ IsBroken n) (isDirectory : Bool) :
    m.isIgnored (Path.relative (before ++ name :: after)) isDirectory = true := by
  obtain ⟨-, ps, hps⟩ := ignored_of_read hdot h
  obtain ⟨rest, hrest⟩ : ∃ rest, (Path.relative (name :: after)).toList = '.' :: rest := by
    obtain ⟨more, hmore⟩ := prefix_relative name after
    obtain ⟨cs, hcs⟩ := List.head?_eq_some_iff.1 hname
    exact ⟨cs ++ more, by rw [← hmore, hcs, List.cons_append]⟩
  have hsubject := subject_query hnames (by simp) isDirectory
  unfold isIgnored
  rw [hps]
  dsimp only
  refine Glob.PatternList.selects_concat ?_
  rw [hsubject]
  rcases eq_or_ne before [] with rfl | hbefore
  · rw [List.nil_append, hrest, List.cons_append]
    exact Glob.selects_dotPattern (.inl rfl) _
  · rw [toList_relative_append hbefore (by simp), hrest, List.append_cons, List.append_assoc,
      List.cons_append]
    refine Glob.selects_dotPattern (.inr ⟨_, ?_, fun hbreak => ?_, rfl⟩) _
    · obtain ⟨n, names, rfl⟩ := List.exists_cons_of_ne_nil hbefore
      have hn : n.toList ≠ [] := mt String.toList_eq_nil_iff.1 (hnames n (by simp)).1
      exact fun hnil => hn (List.prefix_nil.1 (hnil ▸ prefix_relative n names))
    · rcases mem_relative hbefore hbreak with hslash | ⟨n, hn, hbroken⟩
      · cases hslash
      · exact hline n hn hbroken

/-- **What is accepted has no name that begins with a dot**, except after a line break. -/
theorem dotsHidden_of_accepts (hdot : dotfiles ∉ ignores)
    (h : read root includes ignores true = .ok m) {names : List String}
    (hnames : ∀ n ∈ names, IsName n) {isDirectory : Bool}
    (hignored : m.isIgnored (Path.relative names) isDirectory = false) : DotsHidden names := by
  rintro before name after rfl hname
  by_contra hnone
  push Not at hnone
  rw [isIgnored_of_dot hdot h hnames hname hnone] at hignored
  cases hignored

/-- **What is accepted**, also by links, is seen under a path without names that begin with a dot,
except after a line break. -/
theorem dotsHidden_of_accepted? (hdot : dotfiles ∉ ignores)
    (h : read root includes ignores true = .ok m) (hroot : ∀ n ∈ root, IsName n) {files : FileTree}
    {path p : String} {isDirectory : Bool}
    (haccepted : m.accepted? files path isDirectory = .ok (some p)) : DotsHidden (segments p) := by
  obtain ⟨rfl, -⟩ := ignored_of_read hdot h
  obtain ⟨names, hplace, rfl, haccepts⟩ := exists_of_accepted? haccepted
  have hnames : ∀ n ∈ names, IsName n := fun n hn =>
    FileTree.TargetsHave.resolve (fun _ _ _ n hn => (mem_parts hn).1) hroot
      (fun n hn => (mem_parts hn).1) hplace n (List.mem_append_right _ hn)
  rw [segments_relative hnames (ne_nil_of_accepts haccepts)]
  rw [accepts, Bool.and_eq_true, Bool.and_eq_true, Bool.not_eq_true'] at haccepts
  exact dotsHidden_of_accepts hdot h hnames haccepts.1.2

/-- **Without line breaks** in the root, in links and in the path no name at all begins with a
dot. -/
theorem not_isDotted_of_accepted? (hdot : dotfiles ∉ ignores)
    (h : read root includes ignores true = .ok m) (hroot : ∀ n ∈ root, IsName n)
    (hline : ∀ n ∈ root, ¬ IsBroken n) {files : FileTree}
    (hlinks : files.TargetsHave (¬ IsBroken ·)) {path p : String}
    (hpath : ∀ n ∈ parts path, ¬ IsBroken n) {isDirectory : Bool}
    (haccepted : m.accepted? files path isDirectory = .ok (some p)) :
    ∀ n ∈ segments p, ¬ IsDotted n := by
  refine (dotsHidden_of_accepted? hdot h hroot haccepted).not_isDotted ?_
  obtain ⟨rfl, -⟩ := ignored_of_read hdot h
  obtain ⟨names, hplace, rfl, haccepts⟩ := exists_of_accepted? haccepted
  have hnames : ∀ n ∈ m.root ++ names, IsName n ∧ ¬ IsBroken n :=
    FileTree.TargetsHave.resolve
      (fun place target hlink n hn hup =>
        ⟨(mem_parts hn).1 hup, hlinks place target hlink n hn hup⟩)
      (fun n hn => ⟨hroot n hn, hline n hn⟩) (fun n hn hup => ⟨(mem_parts hn).1 hup, hpath n hn⟩)
      hplace
  rw [segments_relative (fun n hn => (hnames n (List.mem_append_right _ hn)).1)
    (ne_nil_of_accepts haccepts)]
  exact fun n hn => (hnames n (List.mem_append_right _ hn)).2

end Matcher

end Path

end ScriptScrub
