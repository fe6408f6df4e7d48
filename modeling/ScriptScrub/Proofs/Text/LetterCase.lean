import ScriptScrub.Text.LetterCase

/-!
# Signs and lower case

Underscores, dots and the other characters that come before the small letters (`IsEarly`) are the
lower case of themselves at most (`eq_of_lowerChar_eq`). So where one of them stands in a text in
lower case it stands in the text (`exists_of_lowerAfter_eq_append`), and the text begins with it if
the text in lower case does (`head?_of_lowerAfter`).
-/

namespace ScriptScrub.Text

/-- The lower cases of all characters with one are beyond the underscore, but for those of the plain
letters. -/
theorem lowerRuns_beyond_underscore :
    ∀ run ∈ lowerRuns, run.2.1 < 128 ∨ 95 < (run.1 : Int) + run.2.2.2 := by
  decide +kernel

/-- The character is an underscore or comes before it. -/
def IsEarly (c : Char) : Prop := 0 < c.toNat ∧ c.toNat ≤ 95

instance (c : Char) : Decidable (IsEarly c) := inferInstanceAs (Decidable (_ ∧ _))

/-- A number stands for such a character only if it is its code point. -/
theorem IsEarly.eq_of_ofNat {x : Char} (hx : IsEarly x) {n : Nat} (h : Char.ofNat n = x) :
    n = x.toNat := by
  by_cases hvalid : n.isValidChar
  · rw [Char.ofNat, dif_pos hvalid] at h
    exact congrArg Char.toNat h
  · rw [Char.ofNat, dif_neg hvalid] at h
    exact absurd hx.1 (by rw [← h]; decide)

/-- **Only the character itself** has such a character as its lower case. -/
theorem eq_of_lowerChar_eq {c x : Char} (hx : IsEarly x) (h : lowerChar c = x) : c = x := by
  rw [lowerChar] at h
  dsimp only at h
  split at h
  · split at h
    · next hletter =>
      have hn := hx.eq_of_ofNat h
      have hlow : 'A'.toNat ≤ c.toNat := hletter.1
      have : 'A'.toNat = 65 := rfl
      have := hx.2
      omega
    · exact h
  next hwide =>
  split at h
  · next a b step d hrun =>
    have hn := hx.eq_of_ofNat h
    have hbeyond : b < 128 ∨ 95 < (a : Int) + d :=
      lowerRuns_beyond_underscore _ (List.mem_of_find?_eq_some hrun)
    have hin := List.find?_some hrun
    simp only [Bool.and_eq_true, decide_eq_true_eq] at hin
    have := hx.2
    omega
  · exact h

/-- **A character at a time** is turned into lower case: what it becomes is not nothing, and has
such a character only if it is this character. -/
theorem lowerAfter_cons (cased : Bool) (c : Char) (cs : List Char) :
    ∃ first cased', lowerAfter cased (c :: cs) = first ++ lowerAfter cased' cs ∧ first ≠ [] ∧
      ∀ x ∈ first, IsEarly x → c = x ∧ first = [x] ∧ cased' = isCased x := by
  have hdotted : ¬ IsEarly 'i' ∧ ¬ IsEarly '\u0307' := by decide +kernel
  have hsigma : ¬ IsEarly '\u03C2' ∧ ¬ IsEarly '\u03C3' := by decide +kernel
  rw [lowerAfter]
  split
  · refine ⟨['i', '\u0307'], true, rfl, by simp, fun x hx hearly => ?_⟩
    simp only [List.mem_cons, List.not_mem_nil, or_false] at hx
    rcases hx with rfl | rfl
    · exact absurd hearly hdotted.1
    · exact absurd hearly hdotted.2
  split
  · refine ⟨[_], true, rfl, by simp, fun x hx hearly => ?_⟩
    rw [List.mem_singleton] at hx
    split at hx
    · exact absurd (hx ▸ hearly) hsigma.1
    · exact absurd (hx ▸ hearly) hsigma.2
  · refine ⟨[lowerChar c], isCased c, rfl, by simp, fun x hx hearly => ?_⟩
    have hlower := List.mem_singleton.1 hx
    obtain rfl := eq_of_lowerChar_eq hearly hlower.symm
    exact ⟨rfl, by rw [← hlower], rfl⟩

/-- **Where such a character stands in lower case** it stands in the text. -/
theorem exists_of_lowerAfter_eq_append {x : Char} (hx : IsEarly x) {cased : Bool}
    {cs before after : List Char} (h : lowerAfter cased cs = before ++ x :: after) :
    ∃ first rest, cs = first ++ x :: rest ∧ lowerAfter (isCased x) rest = after ∧
      (before = [] ↔ first = []) := by
  induction cs generalizing cased before with
  | nil => simp [lowerAfter] at h
  | cons c cs ih =>
      obtain ⟨lowered, cased', heq, hne, hearly⟩ := lowerAfter_cons cased c cs
      have further : ∀ before', before = lowered ++ before' →
          lowerAfter cased' cs = before' ++ x :: after →
          ∃ first rest, c :: cs = first ++ x :: rest ∧ lowerAfter (isCased x) rest = after ∧
            (before = [] ↔ first = []) := by
        rintro before' rfl hlater
        obtain ⟨first, rest, rfl, hafter, -⟩ := ih hlater
        exact ⟨c :: first, rest, rfl, hafter, by simp [hne]⟩
      rw [heq, List.append_eq_append_iff] at h
      rcases h with ⟨before', hbefore, hlater⟩ | ⟨more, hlowered, hlater⟩
      · exact further before' hbefore hlater
      · cases more with
        | nil => exact further [] (by simpa using hlowered.symm) hlater.symm
        | cons y more =>
            obtain ⟨rfl, hlater⟩ := List.cons.inj hlater
            obtain ⟨rfl, hone, rfl⟩ := hearly x (by simp [hlowered]) hx
            rw [hlowered] at hone
            obtain ⟨rfl, hone⟩ | ⟨-, hone⟩ := List.append_eq_singleton_iff.1 hone
            · obtain rfl := (List.cons.inj hone).2
              exact ⟨[], cs, rfl, (List.cons.inj hlater).2.symm, by simp⟩
            · cases hone

/-- A text in lower case begins with such a character only if the text does. -/
theorem head?_of_lowerAfter {x : Char} (hx : IsEarly x) {cased : Bool} {cs : List Char}
    (h : (lowerAfter cased cs).head? = some x) : cs.head? = some x := by
  obtain ⟨after, hafter⟩ := List.head?_eq_some_iff.1 h
  rw [← List.nil_append (x :: after)] at hafter
  obtain ⟨first, rest, rfl, -, hfirst⟩ := exists_of_lowerAfter_eq_append hx hafter
  rw [hfirst.1 rfl]
  rfl

/-- A dot is its own lower case. -/
theorem lowerAfter_dot (cased : Bool) (cs : List Char) :
    lowerAfter cased ('.' :: cs) = '.' :: lowerAfter false cs := by
  have hcased : isCased '.' = false := by decide +kernel
  rw [lowerAfter, if_neg (by decide), if_neg (by decide), hcased]
  rfl

/-- A text with a dot has one in lower case. -/
theorem dot_mem_lowerAfter {cased : Bool} {cs : List Char} (h : '.' ∈ cs) :
    '.' ∈ lowerAfter cased cs := by
  induction cs generalizing cased with
  | nil => cases h
  | cons c cs ih =>
      rcases List.mem_cons.1 h with rfl | h
      · rw [lowerAfter_dot]
        exact .head _
      · obtain ⟨first, cased', heq, -⟩ := lowerAfter_cons cased c cs
        rw [heq]
        exact List.mem_append_right _ (ih h)

end ScriptScrub.Text
