import Mathlib.Data.List.Basic
import ScriptScrub.Glob.Matching

/-!
# Reading on

What the steps of a pattern leave of a path (`Leaves`), and what they leave of a longer one. Every
step but the last one of all, `Step.close`, reads a longer path as it reads its beginning
(`Step.append_mem_rests`). A piece that is no character class reads no slash, so a name that ends
right after the slash of a directory stands for the names below as well (`Leaves.below_name`): steps
that read a directory, with the slash at its end, read everything below it.
-/

namespace ScriptScrub.Glob

/-- The steps can read a text such that this much is left. -/
def Leaves : List Step → List Char → List Char → Prop
  | [], cs, left => left = cs
  | step :: steps, cs, left => ∃ mid ∈ step.rests cs, Leaves steps mid left

/-- Steps in two parts. -/
theorem leaves_append {steps steps' : List Step} {cs left : List Char} :
    Leaves (steps ++ steps') cs left ↔ ∃ mid, Leaves steps cs mid ∧ Leaves steps' mid left := by
  induction steps generalizing cs with
  | nil => simp [Leaves]
  | cons step steps ih =>
      simp only [List.cons_append, Leaves, ih]
      constructor
      · rintro ⟨rest, hrest, mid, hmid, hleft⟩
        exact ⟨mid, ⟨rest, hrest, hmid⟩, hleft⟩
      · rintro ⟨mid, ⟨rest, hrest, hmid⟩, hleft⟩
        exact ⟨rest, hrest, mid, hmid, hleft⟩

/-- A last step. -/
theorem leaves_concat {steps : List Step} {step : Step} {cs left : List Char} :
    Leaves (steps ++ [step]) cs left ↔ ∃ mid, Leaves steps cs mid ∧ left ∈ step.rests mid := by
  simp [leaves_append, Leaves]

/-- **There is a way through all steps** exactly if they can leave something, be it nothing at all.
-/
theorem readable_iff {steps : List Step} {cs : List Char} :
    readable steps cs = true ↔ ∃ left, Leaves steps cs left := by
  have among : ∀ (steps : List Step) (lefts : List (List Char)),
      (steps.foldl (fun lefts step => (lefts.flatMap step.rests).eraseDups) lefts ≠ [] ↔
        ∃ cs ∈ lefts, ∃ left, Leaves steps cs left) := by
    intro steps
    induction steps with
    | nil =>
        intro lefts
        simp [Leaves, ← List.isEmpty_eq_false_iff, List.isEmpty_eq_false_iff_exists_mem]
    | cons step steps ih =>
        intro lefts
        rw [List.foldl_cons, ih]
        simp only [List.mem_eraseDups, List.mem_flatMap, Leaves]
        constructor
        · rintro ⟨mid, ⟨cs, hcs, hmid⟩, left, hleft⟩
          exact ⟨cs, hcs, left, mid, hmid, hleft⟩
        · rintro ⟨cs, hcs, left, mid, hmid, hleft⟩
          exact ⟨mid, ⟨cs, hcs, hmid⟩, left, hleft⟩
  rw [readable, Bool.not_eq_true', List.isEmpty_eq_false_iff, among]
  simp

/-! ## What is left is the end of the text -/

/-- What follows a slash is an end of the text. -/
theorem suffix_of_mem_afterSlash {started : Bool} {cs left : List Char}
    (h : left ∈ afterSlash started cs) : left <:+ cs := by
  induction cs generalizing started with
  | nil => simp [afterSlash] at h
  | cons c cs ih =>
      rw [afterSlash, List.mem_append] at h
      refine List.IsSuffix.trans ?_ (List.suffix_cons c cs)
      rcases h with h | h
      · split at h <;> simp_all
      · split at h
        · cases h
        · exact ih h

/-- What follows some beginning is an end of the text. -/
theorem suffix_of_mem_afterSome {cs left : List Char} (h : left ∈ afterSome cs) : left <:+ cs := by
  induction cs with
  | nil => simp [afterSome] at h
  | cons c cs ih =>
      rw [afterSome] at h
      refine List.IsSuffix.trans ?_ (List.suffix_cons c cs)
      split at h
      · cases h
      · rcases List.mem_cons.1 h with rfl | h
        · exact List.suffix_rfl
        · exact ih h

/-- What follows a beginning without slashes is an end of the text. -/
theorem suffix_of_mem_afterRun {cs left : List Char} (h : left ∈ afterRun cs) : left <:+ cs := by
  induction cs with
  | nil => simp_all [afterRun]
  | cons c cs ih =>
      rcases List.mem_cons.1 h with rfl | h
      · exact List.suffix_rfl
      · refine List.IsSuffix.trans ?_ (List.suffix_cons c cs)
        split at h
        · cases h
        · exact ih h

/-- A piece of a name leaves an end of the text. -/
theorem Piece.suffix_of_mem_rests {p : Piece} {cs left : List Char} (h : left ∈ p.rests cs) :
    left <:+ cs := by
  cases p with
  | run => exact suffix_of_mem_afterRun h
  | literal c | one | oneOf k =>
      cases cs with
      | nil => cases h
      | cons d cs =>
          rw [rests] at h
          split at h <;> simp_all

/-- **A step leaves an end of the text.** -/
theorem Step.suffix_of_mem_rests {step : Step} {cs left : List Char} (h : left ∈ step.rests cs) :
    left <:+ cs := by
  cases step with
  | down =>
      rcases List.mem_cons.1 h with rfl | h
      · exact List.suffix_rfl
      · exact suffix_of_mem_afterSlash h
  | deeper =>
      rcases List.mem_cons.1 h with rfl | h
      · exact List.suffix_rfl
      · split at h
        · exact (suffix_of_mem_afterSome h).trans (List.suffix_cons _ _)
        · cases h
  | slash | close =>
      unfold rests at h
      split at h <;> simp_all
  | piece p => exact p.suffix_of_mem_rests h

/-- **Steps leave an end of the text.** -/
theorem Leaves.suffix {steps : List Step} {cs left : List Char} (h : Leaves steps cs left) :
    left <:+ cs := by
  induction steps generalizing cs with
  | nil => exact h ▸ List.suffix_rfl
  | cons step steps ih =>
      obtain ⟨mid, hmid, hleft⟩ := h
      exact (ih hleft).trans (Step.suffix_of_mem_rests hmid)

/-! ## Longer texts -/

/-- What follows a slash is followed by the rest of a longer text. -/
theorem append_mem_afterSlash {started : Bool} {cs left : List Char}
    (h : left ∈ afterSlash started cs) (more : List Char) :
    left ++ more ∈ afterSlash started (cs ++ more) := by
  induction cs generalizing started with
  | nil => simp [afterSlash] at h
  | cons c cs ih =>
      rw [afterSlash, List.mem_append] at h
      rw [List.cons_append, afterSlash, List.mem_append]
      rcases h with h | h
      · left
        split at h <;> simp_all
      · right
        split at h <;> simp_all

/-- What follows some beginning is followed by the rest of a longer text. -/
theorem append_mem_afterSome {cs left : List Char} (h : left ∈ afterSome cs) (more : List Char) :
    left ++ more ∈ afterSome (cs ++ more) := by
  induction cs with
  | nil => simp [afterSome] at h
  | cons c cs ih =>
      rw [afterSome] at h
      rw [List.cons_append, afterSome]
      split at h
      · cases h
      · rcases List.mem_cons.1 h with rfl | h <;> simp_all

/-- A beginning without slashes may be empty. -/
theorem mem_afterRun_self (cs : List Char) : cs ∈ afterRun cs := by
  cases cs <;> simp [afterRun]

/-- What follows a beginning without slashes is followed by the rest of a longer text. -/
theorem append_mem_afterRun {cs left : List Char} (h : left ∈ afterRun cs) (more : List Char) :
    left ++ more ∈ afterRun (cs ++ more) := by
  induction cs with
  | nil =>
      rw [afterRun, List.mem_singleton] at h
      subst h
      exact mem_afterRun_self more
  | cons c cs ih =>
      rw [afterRun, List.mem_cons] at h
      rw [List.cons_append, afterRun, List.mem_cons]
      rcases h with rfl | h
      · exact .inl rfl
      · right
        split at h <;> simp_all

/-- A piece of a name reads a longer text as it reads its beginning. -/
theorem Piece.append_mem_rests {p : Piece} {cs left : List Char} (h : left ∈ p.rests cs)
    (more : List Char) : left ++ more ∈ p.rests (cs ++ more) := by
  cases p with
  | run => exact append_mem_afterRun h more
  | literal c | one | oneOf k =>
      cases cs with
      | nil => cases h
      | cons d cs =>
          rw [rests] at h
          rw [List.cons_append, rests]
          split at h <;> simp_all

/-- **A step reads a longer text as it reads its beginning**, unless it is about the end. -/
theorem Step.append_mem_rests {step : Step} (hstep : step ≠ .close) {cs left : List Char}
    (h : left ∈ step.rests cs) (more : List Char) : left ++ more ∈ step.rests (cs ++ more) := by
  cases step with
  | down =>
      rcases List.mem_cons.1 h with rfl | h
      · exact .head _
      · exact .tail _ (append_mem_afterSlash h more)
  | deeper =>
      rcases List.mem_cons.1 h with rfl | h
      · exact .head _
      · refine .tail _ ?_
        split at h
        · exact append_mem_afterSome h more
        · cases h
  | slash =>
      unfold rests at h
      split at h <;> simp_all [rests]
  | piece p => exact p.append_mem_rests h more
  | close => exact absurd rfl hstep

/-- **Steps read a longer text as they read its beginning**, unless one is about the end. -/
theorem Leaves.append {steps : List Step} (hsteps : .close ∉ steps) {cs left : List Char}
    (h : Leaves steps cs left) (more : List Char) : Leaves steps (cs ++ more) (left ++ more) := by
  induction steps generalizing cs with
  | nil => rw [Leaves] at h ⊢; rw [h]
  | cons step steps ih =>
      rw [List.mem_cons, not_or] at hsteps
      obtain ⟨mid, hmid, hleft⟩ := h
      exact ⟨_, Step.append_mem_rests (Ne.symm hsteps.1) hmid more, ih hsteps.2 hleft⟩

/-! ## Below a directory -/

/-- The piece reads no slash. -/
def Piece.Plain (p : Piece) : Prop := p ≠ .literal '/' ∧ ∀ k, p ≠ .oneOf k

/-- A slash in the text is left by such a piece. -/
theorem Piece.Plain.slash_mem {p : Piece} (h : p.Plain) {cs left : List Char} (hcs : '/' ∈ cs)
    (hleft : left ∈ p.rests cs) : '/' ∈ left := by
  cases p with
  | run =>
      rw [rests] at hleft
      induction cs with
      | nil => cases hcs
      | cons c cs ih =>
          rw [afterRun, List.mem_cons] at hleft
          rcases hleft with rfl | hleft
          · exact hcs
          · split at hleft
            · cases hleft
            · next hc =>
              rw [beq_iff_eq] at hc
              exact ih (List.mem_of_ne_of_mem (Ne.symm hc) hcs) hleft
  | literal c | one =>
      obtain ⟨d, ds, rfl⟩ := List.exists_cons_of_ne_nil (List.ne_nil_of_mem hcs)
      have hd : left = ds ∧ d ≠ '/' := by
        have := h.1
        rw [rests] at hleft
        split at hleft <;> simp_all
      exact hd.1 ▸ List.mem_of_ne_of_mem hd.2.symm hcs
  | oneOf k => exact absurd rfl (h.2 k)

/-- A directory as patterns see it: a text with a slash at its end, or nothing, which is all that
they see of the root. -/
def IsDirectoryText (cs : List Char) : Prop := cs = [] ∨ ['/'] <:+ cs

/-- What is left of a directory has the slash at its end, unless it is nothing. -/
theorem IsDirectoryText.slash_mem {cs left : List Char} (h : IsDirectoryText cs)
    (hleft : left <:+ cs) (hne : left ≠ []) : '/' ∈ left := by
  rcases h with rfl | hslash
  · exact absurd (List.suffix_nil.1 hleft) hne
  · rcases List.suffix_or_suffix_of_suffix hslash hleft with hin | hout
    · exact hin.subset (List.mem_singleton_self _)
    · have heq := hout.eq_of_length_le (List.length_pos_iff.2 hne)
      simp [heq]

/-- A run of characters reads on to a slash or to the end. -/
theorem exists_mem_afterRun (cs : List Char) :
    ∃ left ∈ afterRun cs, left = [] ∨ ∃ rest, left = '/' :: rest := by
  induction cs with
  | nil => exact ⟨[], .head _, .inl rfl⟩
  | cons c cs ih =>
      by_cases hc : c = '/'
      · exact ⟨c :: cs, .head _, .inr ⟨cs, by rw [hc]⟩⟩
      · obtain ⟨left, hleft, hend⟩ := ih
        exact ⟨left, by simp [afterRun, hc, hleft], hend⟩

/-- **What reads a directory reads everything below it**, if it ends with a piece of a name. -/
theorem Leaves.below_name {steps : List Step} (hsteps : .close ∉ steps) {p : Piece} (hp : p.Plain)
    {dir left : List Char} (hdir : IsDirectoryText dir)
    (h : Leaves (steps ++ [.piece p] ++ [.close]) dir left) (more : List Char) :
    ∃ left, Leaves (steps ++ [.piece p] ++ [.close]) (dir ++ more) left := by
  obtain ⟨last, hlast, hclose⟩ := leaves_concat.1 h
  have hnoclose : Step.close ∉ steps ++ [.piece p] := by simp [hsteps]
  rcases eq_or_ne last [] with rfl | hne
  · -- The piece was to read on after the slash, so it may read nothing, and it may read more.
    obtain ⟨mid, hmid, hpiece⟩ := leaves_concat.1 hlast
    have hnil : mid = [] := by
      by_contra hmidne
      have := hp.slash_mem (hdir.slash_mem hmid.suffix hmidne) hpiece
      simp at this
    subst hnil
    have hrun : p = .run := by
      cases p with
      | run => rfl
      | literal c | one | oneOf k => cases hpiece
    obtain ⟨rest, hrest, hend⟩ := exists_mem_afterRun more
    have hleaves : Leaves (steps ++ [.piece p]) (dir ++ more) rest :=
      leaves_concat.2 ⟨more, hmid.append hsteps more, by rwa [hrun]⟩
    rcases hend with rfl | ⟨rest, rfl⟩
    · exact ⟨[], leaves_concat.2 ⟨[], hleaves, .head _⟩⟩
    · exact ⟨rest, leaves_concat.2 ⟨_, hleaves, .head _⟩⟩
  · -- A slash is left, and it closes the name before whatever follows.
    have hslash := hdir.slash_mem hlast.suffix hne
    obtain ⟨rest, rfl⟩ : ∃ rest, last = '/' :: rest := by
      unfold Step.rests at hclose
      split at hclose <;> simp_all
    exact ⟨rest ++ more, leaves_concat.2 ⟨_, hlast.append hnoclose more, .head _⟩⟩

end ScriptScrub.Glob
