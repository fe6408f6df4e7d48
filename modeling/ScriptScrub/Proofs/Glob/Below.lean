import ScriptScrub.Glob.PatternList
import ScriptScrub.Proofs.Glob.Reading
import ScriptScrub.Proofs.Result

/-!
# Below an ignored directory

A pattern that selects a directory selects everything below it (`Shape.Plain.below`), provided that
the name at its end has no character class, as a negated class reads a slash. So do several of them,
none of which takes anything back (`PatternList.Plain.below`), and this is what is read of texts
without an opening bracket and without a sign of negation in front (`PatternList.plain_of_read`).
-/

namespace ScriptScrub.Glob

/-! ## Segments -/

/-- A segment is no name, or a name of at least one piece, none of which reads a slash. -/
def Segment.Plain (s : Segment) : Prop := ∀ ps, s = .name ps → ps ≠ [] ∧ ∀ p ∈ ps, p.Plain

/-- The last steps of a pattern, which read its last segment. -/
def Segment.lastSteps : Segment → List Step
  | .anyDepth => []
  | .name ps => ps.map .piece ++ [.close]

/-- The steps of later segments end with those of the last one. -/
theorem laterSteps_concat (segments : List Segment) (last : Segment) :
    ∃ steps, .close ∉ steps ∧ laterSteps (segments ++ [last]) = steps ++ last.lastSteps := by
  induction segments with
  | nil => cases last <;> exact ⟨[.slash], by simp, rfl⟩
  | cons s segments ih =>
      obtain ⟨steps, hsteps, heq⟩ := ih
      obtain ⟨next, rest, hrest⟩ := List.exists_cons_of_ne_nil (l := segments ++ [last]) (by simp)
      rw [hrest] at heq
      rw [List.cons_append, hrest]
      cases s with
      | anyDepth => exact ⟨.deeper :: steps, by simp [hsteps], by simp [laterSteps, heq]⟩
      | name ps =>
          exact ⟨.slash :: ps.map .piece ++ steps, by simp [hsteps], by simp [laterSteps, heq]⟩

/-- The steps along segments end with those of the last one. -/
theorem stepsOf_concat (segments : List Segment) (last : Segment) :
    ∃ steps, .close ∉ steps ∧ stepsOf (segments ++ [last]) = steps ++ last.lastSteps := by
  rcases segments with _ | ⟨_ | ps, segments⟩
  · cases last with
    | anyDepth => exact ⟨[.down], by simp, rfl⟩
    | name ps => exact ⟨[], by simp, by simp [stepsOf, Segment.lastSteps]⟩
  · rcases segments with _ | ⟨_ | ps, segments⟩
    · cases last with
      | anyDepth => exact ⟨[.down, .slash], by simp, rfl⟩
      | name ps => exact ⟨[.down], by simp, by simp [stepsOf, Segment.lastSteps]⟩
    · obtain ⟨steps, hsteps, heq⟩ := laterSteps_concat (.anyDepth :: segments) last
      refine ⟨.down :: steps, by simp [hsteps], ?_⟩
      show Step.down :: laterSteps (.anyDepth :: segments ++ [last]) = _
      rw [heq, List.cons_append]
    · obtain ⟨steps, hsteps, heq⟩ := laterSteps_concat segments last
      exact ⟨.down :: ps.map .piece ++ steps, by simp [hsteps], by simp [stepsOf, heq]⟩
  · obtain ⟨steps, hsteps, heq⟩ := laterSteps_concat segments last
    exact ⟨ps.map .piece ++ steps, by simp [hsteps], by simp [stepsOf, heq]⟩

/-- **Segments that lead to a directory lead to everything below it.** -/
theorem Segment.Plain.below {last : Segment} (hlast : last.Plain) {segments : List Segment}
    {dir : List Char} (hdir : IsDirectoryText dir)
    (h : readable (stepsOf (segments ++ [last])) dir = true) (more : List Char) :
    readable (stepsOf (segments ++ [last])) (dir ++ more) = true := by
  obtain ⟨steps, hsteps, heq⟩ := stepsOf_concat segments last
  rw [readable_iff, heq] at h ⊢
  obtain ⟨left, hleft⟩ := h
  cases last with
  | anyDepth => exact ⟨_, hleft.append (by simpa [lastSteps] using hsteps) more⟩
  | name ps =>
      obtain ⟨hne, hplain⟩ := hlast ps rfl
      rcases List.eq_nil_or_concat ps with rfl | ⟨ps, p, rfl⟩
      · exact absurd rfl hne
      · rw [lastSteps, List.concat_eq_append, List.map_append, ← List.append_assoc,
          ← List.append_assoc] at hleft ⊢
        exact hleft.below_name (by simp [hsteps]) (hplain p (by simp)) hdir more

/-! ## Shapes -/

/-- The last segment of a shape is plain. -/
def Shape.Plain : Shape → Prop
  | .anything | .nested => True
  | .path segments => ∃ init last, segments = init ++ [last] ∧ last.Plain

/-- **A shape that selects a directory selects everything below it.** -/
theorem Shape.Plain.below {shape : Shape} (hshape : shape.Plain) {dir : List Char}
    (hdir : IsDirectoryText dir) (h : shape.selects dir = true) (more : List Char) :
    shape.selects (dir ++ more) = true := by
  cases shape with
  | anything =>
      rw [selects, List.any_append, Bool.or_eq_true]
      exact .inl h
  | nested =>
      rw [selects, List.contains_iff_mem] at h ⊢
      exact List.mem_append_left _ h
  | path segments =>
      obtain ⟨init, last, rfl, hlast⟩ := hshape
      exact hlast.below hdir h more

/-- Patterns see a directory as one, and what is below it as what follows. -/
theorem subject_directory {cs : List Char} (h : ['/'] <:+ cs) (more : List Char) :
    IsDirectoryText (subject cs) ∧ subject (cs ++ more) = subject cs ++ more := by
  have drop : ∀ {c : Char} {rest : List Char}, ['/'] <:+ c :: rest → IsDirectoryText rest :=
    fun h => (List.suffix_cons_iff.1 h).imp (fun heq => (List.cons.inj heq).2.symm) id
  fun_cases subject cs with
  | case1 rest => exact ⟨drop h, rfl⟩
  | case2 rest => exact ⟨drop ((List.suffix_cons_iff.1 h).resolve_left (by simp)), rfl⟩
  | case3 cs hslash hhere =>
      refine ⟨.inr h, ?_⟩
      rcases cs with _ | ⟨c, _ | ⟨d, cs⟩⟩
      · simp at h
      · obtain rfl : '/' = c := by simpa [List.suffix_cons_iff] using h
        exact absurd rfl (hslash [])
      · unfold subject
        split <;> simp_all

/-! ## Reading -/

/-- A text can be a name of a pattern without character classes. -/
def IsPlainPart (part : List Char) : Prop := '/' ∉ part ∧ '[' ∉ part

/-- Such a text is made of characters that are neither slashes nor brackets. -/
theorem isPlainPart_cons {c : Char} {cs : List Char} :
    IsPlainPart (c :: cs) ↔ (c ≠ '/' ∧ c ≠ '[') ∧ IsPlainPart cs := by
  simp only [IsPlainPart, List.mem_cons, not_or, ne_comm]
  tauto

/-- Any other character than a slash is a piece that reads no slash. -/
theorem Piece.plain_literal {c : Char} (h : c ≠ '/') : (Piece.literal c).Plain :=
  ⟨fun heq => h (Piece.literal.inj heq), nofun⟩

/-- One piece more is read. -/
theorem plain_of_cons {p : Piece} {later : Except NameFault (List Piece)} {ps : List Piece}
    (hp : p.Plain) (hlater : ∀ rest, later = .ok rest → ∀ q ∈ rest, q.Plain)
    (h : (return p :: (← later)) = Except.ok ps) : ps ≠ [] ∧ ∀ q ∈ ps, q.Plain := by
  obtain ⟨rest, hrest, h⟩ := bind_eq_ok.1 h
  cases h
  exact ⟨by simp, List.forall_mem_cons.2 ⟨hp, hlater rest hrest⟩⟩

/-- What is read of a name without slashes and brackets. -/
theorem plain_of_piecesWithin {fuel : Nat} {cs : List Char} (hcs : IsPlainPart cs)
    (hfuel : cs.length ≤ fuel) {ps : List Piece} (h : piecesWithin fuel cs = .ok ps) :
    (cs ≠ [] → ps ≠ []) ∧ ∀ p ∈ ps, p.Plain := by
  fun_induction piecesWithin fuel cs generalizing ps with
  | case1 => simp_all
  | case2 => cases h
  | case3 cs hne => exact absurd (List.eq_nil_of_length_eq_zero (by omega)) hne
  | case4 fuel c rest ih =>
      obtain ⟨-, hc, hrest⟩ := by simpa only [isPlainPart_cons] using hcs
      have hread := plain_of_cons (Piece.plain_literal hc.1)
        (fun later hlater => (ih hrest (by simp at hfuel; omega) hlater).2) h
      exact hread.imp_left fun hne _ => hne
  | case5 fuel rest ih | case6 fuel rest ih =>
      have hread := plain_of_cons (by simp [Piece.Plain])
        (fun later hlater => (ih (isPlainPart_cons.1 hcs).2 (by simp at hfuel; omega) hlater).2) h
      exact hread.imp_left fun hne _ => hne
  | case7 | case8 => simp [IsPlainPart] at hcs
  | case9 fuel c rest _ _ _ _ _ ih =>
      obtain ⟨hc, hrest⟩ := isPlainPart_cons.1 hcs
      have hread := plain_of_cons (Piece.plain_literal hc.1)
        (fun later hlater => (ih hrest (by simp at hfuel; omega) hlater).2) h
      exact hread.imp_left fun hne _ => hne

/-- What is read of a name, be it a lone star. -/
theorem plain_of_pieces {cs : List Char} (hcs : IsPlainPart cs) {ps : List Piece}
    (h : pieces cs = .ok ps) : (cs ≠ [] → ps ≠ []) ∧ ∀ p ∈ ps, p.Plain := by
  unfold pieces at h
  split at h
  · cases h
    simp [Piece.Plain]
  · exact plain_of_piecesWithin hcs (Nat.le_refl _) h

/-- What is read of a segment without slashes and brackets, if it is not empty. -/
theorem Segment.plain_of_read {part : List Char} (hpart : IsPlainPart part) (hne : part ≠ [])
    {s : Segment} (h : Segment.read part = .ok s) : s.Plain := by
  unfold read at h
  split at h
  · cases h
    nofun
  · obtain ⟨ps, hps, h⟩ := bind_eq_ok.1 h
    cases h
    intro ps' hs
    cases hs
    exact (plain_of_pieces hpart hps).imp_left fun h => h hne

/-- The parts of a text between slashes have no slash, and only characters of the text. -/
theorem splitSlashes_parts {cs part : List Char} (h : part ∈ splitSlashes cs) :
    '/' ∉ part ∧ ∀ c ∈ part, c ∈ cs := by
  induction cs generalizing part with
  | nil => simp_all [splitSlashes]
  | cons c cs ih =>
      have old : ∀ part ∈ splitSlashes cs, '/' ∉ part ∧ ∀ d ∈ part, d ∈ c :: cs :=
        fun part hpart => (ih hpart).imp_right fun hd d hdpart => .tail _ (hd d hdpart)
      rw [splitSlashes] at h
      split at h
      · rcases List.mem_cons.1 h with rfl | h
        · simp
        · exact old part h
      · next hc =>
        have new : ∀ part, ('/' ∉ part ∧ ∀ d ∈ part, d ∈ c :: cs) →
            '/' ∉ c :: part ∧ ∀ d ∈ c :: part, d ∈ c :: cs := fun part hpart =>
          ⟨List.not_mem_cons_of_ne_of_not_mem (Ne.symm hc) hpart.1,
            List.forall_mem_cons.2 ⟨.head _, hpart.2⟩⟩
        split at h
        · next first parts heq =>
          rcases List.mem_cons.1 h with rfl | h
          · exact new first (old first (heq ▸ .head _))
          · exact old part (heq ▸ .tail _ h)
        · rw [List.mem_singleton] at h
          exact h ▸ new [] (by simp)

/-- Tying a pattern to the root adds two stars at most. -/
theorem mem_rooted {parts : List (List Char)} {part : List Char} (h : part ∈ rooted parts) :
    part ∈ parts ∨ part = stars := by
  unfold rooted at h
  split at h
  · exact .inl (.tail _ h)
  · split at h <;> simp_all [or_comm]
  · split at h <;> simp_all [or_comm, or_left_comm]
  · exact .inl h

/-- Opening a pattern adds two stars at most. -/
theorem mem_opened {parts : List (List Char)} {part : List Char} (h : part ∈ opened parts) :
    part ∈ parts ∨ part = stars := by
  fun_induction opened parts with
  | case1 => cases h
  | case2 | case3 => simp_all
  | case4 s rest hrest ih =>
      rcases List.mem_cons.1 h with rfl | h
      · exact .inl (.head _)
      · exact (ih h).imp_left (.tail _)

/-- Opening a pattern leaves a segment. -/
theorem opened_ne_nil {parts : List (List Char)} (h : parts ≠ []) : opened parts ≠ [] := by
  fun_induction opened parts <;> simp_all

/-- An open pattern does not end with an empty segment. -/
theorem getLast?_opened (parts : List (List Char)) : (opened parts).getLast? ≠ some [] := by
  fun_induction opened parts with
  | case1 => simp
  | case2 => simp [stars]
  | case3 s hs => simp [hs]
  | case4 s rest hrest ih =>
      obtain ⟨first, later, heq⟩ := List.exists_cons_of_ne_nil (opened_ne_nil hrest)
      rw [heq] at ih ⊢
      rwa [List.getLast?_cons_cons]

/-- Collapsing a pattern adds no segment, and leaves the last one. -/
theorem collapsed_parts (parts : List (List Char)) :
    (∀ part ∈ collapsed parts, part ∈ parts) ∧ (collapsed parts).getLast? = parts.getLast? := by
  fun_induction collapsed parts with
  | case1 a b rest hstars ih =>
      rw [List.getLast?_cons_cons]
      exact ⟨fun part hpart => .tail _ (ih.1 part hpart), ih.2⟩
  | case2 a b rest hstars ih =>
      refine ⟨fun part hpart => ?_, ?_⟩
      · rcases List.mem_cons.1 hpart with rfl | hpart
        · exact .head _
        · exact .tail _ (ih.1 part hpart)
      · rw [List.getLast?_cons_cons, List.getLast?_cons, ih.2, List.getLast?_cons]
        rfl
  | case3 parts hparts => simp

/-- **What is read of a pattern without character classes** ends with a name that is plain. -/
theorem Shape.plain_of_read {text : String} {parts : List (List Char)}
    (hparts : ∀ part ∈ parts, IsPlainPart part) {shape : Shape}
    (h : Shape.read text parts = .ok (some shape)) : shape.Plain := by
  have hall : ∀ part ∈ collapsed (opened (rooted parts)), IsPlainPart part := by
    intro part hpart
    have hstars : IsPlainPart stars := by simp [IsPlainPart, stars]
    rcases mem_opened ((collapsed_parts _).1 part hpart) with hpart | rfl
    · rcases mem_rooted hpart with hpart | rfl
      · exact hparts part hpart
      · exact hstars
    · exact hstars
  have hlast := getLast?_opened (rooted parts)
  rw [← (collapsed_parts _).2] at hlast
  unfold read at h
  split at h
  · cases h
  · next hne =>
    generalize collapsed (opened (rooted parts)) = all at hall hlast hne h
    split at h
    · cases h
      split <;> trivial
    split at h
    · cases h
      trivial
    split at h
    · cases h
      trivial
    split at h
    · cases h
    · cases h
    · next segments hsegments =>
      split at h
      · cases h
        rcases List.eq_nil_or_concat all with rfl | ⟨init, last, rfl⟩
        · exact absurd rfl hne
        · rw [List.concat_eq_append] at hall hlast hsegments
          obtain ⟨segments, s, rfl, hread⟩ := exists_of_mapM_concat hsegments
          have hne : last ≠ [] := by simpa using hlast
          exact ⟨segments, s, rfl, Segment.plain_of_read (hall last (by simp)) hne hread⟩
      · cases h

/-! ## Lists of patterns -/

/-- The pattern takes nothing back, and what it says of a directory holds below it. -/
structure Pattern.Plain (p : Pattern) : Prop where
  kept : p.negated = false
  shape : p.shape.Plain

/-- What is trimmed at the end begins as it did. -/
theorem Pattern.trimmed_prefix (cs : List Char) :
    (if ['\\', ' '].isSuffixOf cs then cs else trimEnd cs) <+: cs := by
  split
  · exact List.prefix_rfl
  · rw [trimEnd, ← List.reverse_suffix, List.reverse_reverse]
    exact List.dropWhile_suffix _

/-- **What is read of a text** without brackets and without a sign of negation in front. -/
theorem Pattern.plain_of_read {text : String} (hsign : text.toList.head? ≠ some '!')
    (hbracket : '[' ∉ text.toList) {p : Pattern} (h : Pattern.read text = .ok (some p)) :
    p.Plain := by
  have htrim := trimmed_prefix text.toList
  unfold read at h
  dsimp only at h
  generalize (if ['\\', ' '].isSuffixOf text.toList then text.toList else trimEnd text.toList) = cs
    at h htrim
  split at h
  · cases h
  · cases h
  · cases h
  · next rest =>
    obtain ⟨after, hafter⟩ := htrim
    rw [← hafter] at hsign
    exact absurd rfl hsign
  · obtain ⟨shape, hshape, h⟩ := bind_eq_ok.1 h
    cases shape with
    | none => cases h
    | some shape =>
        cases h
        refine ⟨rfl, Shape.plain_of_read (fun part hpart => ?_) hshape⟩
        obtain ⟨hslash, hchars⟩ := splitSlashes_parts hpart
        exact ⟨hslash, fun hmem => hbracket (htrim.subset (hchars _ hmem))⟩

/-- Every pattern of the list is plain. -/
def PatternList.Plain (l : PatternList) : Prop := ∀ p ∈ l.patterns, p.Plain

namespace PatternList

/-- A text as it is configured that is read as a plain pattern: it has no bracket, and no sign of
negation in front. -/
def IsPlainText (text : String) : Prop :=
  (tidy false text).toList.head? ≠ some '!' ∧ '[' ∉ text.toList

instance (text : String) : Decidable (IsPlainText text) :=
  inferInstanceAs (Decidable (_ ∧ _))

/-- A pattern as it is configured has only characters of the text. -/
theorem mem_tidy {text : String} {c : Char} (h : c ∈ (tidy false text).toList) :
    c ∈ text.toList := by
  have hhere : ∀ cs : List Char, withoutHere cs <:+ cs := by
    intro cs
    fun_induction withoutHere cs with
    | case1 rest ih => exact ih.trans ((List.suffix_cons _ _).trans (List.suffix_cons _ _))
    | case2 => exact List.suffix_rfl
  have hmem : c ∈ (Text.trim text).toList := (hhere _).subset (by simpa [tidy] using h)
  rw [Text.trim, String.toList_ofList, Text.trimBy, List.mem_reverse] at hmem
  have := (List.dropWhile_suffix _).subset hmem
  exact (List.dropWhile_suffix _).subset (List.mem_reverse.1 this)

/-- **What is read of plain texts** is plain. -/
theorem plain_of_read {texts : List String} (htexts : ∀ text ∈ texts, IsPlainText text)
    {l : PatternList} (h : read false texts = .ok (some l)) : l.Plain := by
  unfold read at h
  dsimp only at h
  split at h
  · cases h
  · obtain ⟨patterns, hpatterns, h⟩ := bind_eq_ok.1 h
    cases h
    intro p hp
    obtain ⟨p', hp', heq⟩ := List.mem_filterMap.1 hp
    obtain ⟨given, hgiven, hread⟩ := exists_of_mem_mapM hpatterns hp'
    obtain ⟨text, htext, rfl⟩ := List.mem_map.1 hgiven
    obtain ⟨hsign, hbracket⟩ := htexts text (List.mem_of_mem_filter htext)
    exact Pattern.plain_of_read hsign (fun hmem => hbracket (mem_tidy hmem))
      (hread.trans (congrArg _ heq))

/-- A plain list selects what one of its patterns selects. -/
theorem Plain.selects_iff {l : PatternList} (h : l.Plain) {path : String} :
    l.selects path = true ↔ ∃ p ∈ l.patterns, p.shape.selects (subject path.toList) = true := by
  unfold selects
  dsimp only
  split
  · next p hp =>
    have hmem := List.mem_of_getLast? hp
    rw [List.mem_filter] at hmem
    exact iff_of_true (by simp [(h p hmem.1).kept]) ⟨p, hmem⟩
  · next hnone =>
    rw [List.getLast?_eq_none_iff, List.filter_eq_nil_iff] at hnone
    refine iff_of_false (by simp) ?_
    rintro ⟨p, hp, hselects⟩
    exact hnone p hp hselects

/-- **Plain patterns that select a directory select everything below it.** -/
theorem Plain.below {l : PatternList} (hl : l.Plain) {path path' : String}
    (hdir : IsDirectoryText (subject path.toList))
    (hpath : subject path.toList <+: subject path'.toList) (h : l.selects path = true) :
    l.selects path' = true := by
  rw [hl.selects_iff] at h ⊢
  obtain ⟨p, hp, hselects⟩ := h
  obtain ⟨more, hmore⟩ := hpath
  exact ⟨p, hp, hmore ▸ (hl p hp).shape.below hdir hselects more⟩

end PatternList

end ScriptScrub.Glob
