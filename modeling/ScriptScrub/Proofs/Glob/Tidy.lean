import ScriptScrub.Proofs.Glob.Below

/-!
# Tidied patterns

Before a pattern is read it is tidied: blanks around it go, and an anchored one gets a slash in
front. For most patterns that is all the same to what they select (`tidying_keeps_meaning`). It is
not for two kinds: where a backslash keeps a space at the end, the space is taken away all the same,
and the slash that anchors a negated pattern makes a character of a name of its sign
(`meaning_lost`).
-/

namespace ScriptScrub.Glob

/-! ## Readable segments -/

/-- How the reading of segments ends: with the first fault, or with whether all their ranges are in
order. -/
def outcome (parts : List (List Char)) : Except NameFault Bool :=
  (·.all (·.isOrdered)) <$> parts.mapM Segment.read

/-- The first segment is read before the others. -/
theorem outcome_cons (s : List Char) (parts : List (List Char)) :
    outcome (s :: parts) = do
      let first ← Segment.read s
      let later ← outcome parts
      return first.isOrdered && later := by
  rw [outcome, outcome, List.mapM_cons]
  cases Segment.read s with
  | error e => rfl
  | ok first => cases parts.mapM Segment.read <;> rfl

/-- Two stars change nothing. -/
theorem outcome_stars (parts : List (List Char)) : outcome (stars :: parts) = outcome parts := by
  have hstars : Segment.read stars = .ok .anyDepth := rfl
  rw [outcome_cons, hstars]
  cases outcome parts <;> rfl

/-- Nor does an empty segment. -/
theorem outcome_empty (parts : List (List Char)) : outcome ([] :: parts) = outcome parts := by
  have hempty : Segment.read [] = .ok (.name []) := rfl
  rw [outcome_cons, hempty]
  cases outcome parts <;> rfl

/-- **What is tied to the root** is read as it was. -/
theorem outcome_rooted (parts : List (List Char)) : outcome (rooted parts) = outcome parts := by
  unfold rooted
  split
  · exact (outcome_empty _).symm
  · split
    · rfl
    · exact outcome_stars _
  · split
    · rfl
    · exact outcome_stars _
  · rfl

/-- **What is opened** is read as it was. -/
theorem outcome_opened (parts : List (List Char)) : outcome (opened parts) = outcome parts := by
  fun_induction opened parts with
  | case1 => rfl
  | case2 => rw [outcome_stars, outcome_empty]
  | case3 => rfl
  | case4 s rest hrest ih => rw [outcome_cons, ih, ← outcome_cons]

/-- **What is collapsed** is read as it was. -/
theorem outcome_collapsed (parts : List (List Char)) :
    outcome (collapsed parts) = outcome parts := by
  fun_induction collapsed parts with
  | case1 a b rest hstars ih => rw [ih, hstars.1, outcome_stars]
  | case2 a b rest hstars ih => rw [outcome_cons, ih, ← outcome_cons]
  | case3 => rfl

/-- A collapsed pattern has a segment, if it had one. -/
theorem collapsed_ne_nil {parts : List (List Char)} (h : parts ≠ []) : collapsed parts ≠ [] := by
  fun_induction collapsed parts <;> simp_all

/-- A text has a part between slashes. -/
theorem splitSlashes_ne_nil (cs : List Char) : splitSlashes cs ≠ [] := by
  fun_induction splitSlashes cs <;> simp_all

/-- Segments that end so make a pattern, be it one that selects nothing. -/
def IsLegible (r : Except NameFault Bool) : Prop := r = .ok true ∨ r = .error .openBracket

/-- **A shape is read** exactly if there is a segment, and the segments are legible as they are. -/
theorem Shape.exists_read_iff {text : String} {parts : List (List Char)} :
    (∃ shape, Shape.read text parts = .ok shape) ↔
      rooted parts ≠ [] ∧ IsLegible (outcome parts) := by
  have hall : outcome (collapsed (opened (rooted parts))) = outcome parts := by
    rw [outcome_collapsed, outcome_opened, outcome_rooted]
  have hne : rooted parts ≠ [] ↔ collapsed (opened (rooted parts)) ≠ [] :=
    ⟨fun h => collapsed_ne_nil (opened_ne_nil h), fun h heq => h (by rw [heq]; rfl)⟩
  rw [hne, ← hall, Shape.read]
  generalize collapsed (opened (rooted parts)) = all
  split
  · exact iff_of_false nofun fun h => h.1 rfl
  · next hne =>
    rw [and_iff_right hne]
    split
    · next heq => exact iff_of_true ⟨_, rfl⟩ (heq ▸ .inl rfl)
    split
    · next heq => exact iff_of_true ⟨_, rfl⟩ (heq ▸ .inl rfl)
    split
    · next heq => exact iff_of_true ⟨_, rfl⟩ (heq ▸ .inl rfl)
    split
    · next hfault => exact iff_of_true ⟨_, rfl⟩ (.inr (by rw [outcome, hfault]; rfl))
    · next hfault =>
      refine iff_of_false nofun ?_
      rw [IsLegible, outcome, hfault]
      rintro (h | h) <;> cases h
    · next segments hsegments =>
      rw [IsLegible, outcome, hsegments]
      split <;> simp_all [Functor.map, Except.map]

/-! ## Texts of patterns -/

/-- The character, if there is one, is no blank. -/
def NoBlank (c? : Option Char) : Prop := ∀ c ∈ c?, Text.isBlank c = false

instance (c? : Option Char) : Decidable (NoBlank c?) :=
  decidable_of_iff (c?.all (!Text.isBlank ·) = true) (by cases c? <;> simp [NoBlank])

/-- No blank stands at the end. -/
def IsSolid (cs : List Char) : Prop := NoBlank cs.getLast?

/-- A backslash keeps a space at the end. -/
def IsSpaced (cs : List Char) : Prop := ['\\', ' '] <:+ cs

/-- What follows the sign of negation, if there is one. -/
def body : List Char → List Char
  | '!' :: rest => rest
  | cs => cs

/-- The text of a pattern with nothing to tidy up but a space that a backslash keeps: no blanks
around its body, and no `./` in front of it. -/
structure IsNeat (text : String) : Prop where
  isReadable : ∃ p, Pattern.read text = .ok p
  notHere : ¬ ['.', '/'] <+: body text.toList
  start : NoBlank (body text.toList).head?
  ending : IsSolid (body text.toList) ∨ IsSpaced (body text.toList)

instance (cs : List Char) : Decidable (IsSolid cs) := inferInstanceAs (Decidable (NoBlank _))

instance (cs : List Char) : Decidable (IsSpaced cs) := inferInstanceAs (Decidable (_ <:+ _))

instance (text : String) : Decidable (IsNeat text) :=
  decidable_of_iff ((Pattern.read text).isOk = true ∧ ¬ ['.', '/'] <+: body text.toList ∧
      NoBlank (body text.toList).head? ∧ (IsSolid (body text.toList) ∨ IsSpaced (body text.toList)))
    ⟨fun ⟨h, h', h'', h'''⟩ => ⟨exists_ok_iff.2 h, h', h'', h'''⟩,
      fun h => ⟨exists_ok_iff.1 h.isReadable, h.notHere, h.start, h.ending⟩⟩

/-- The text without the last space, if a backslash keeps one there. -/
def unspaced (cs : List Char) : List Char := if IsSpaced cs then cs.dropLast else cs

/-- The text with a slash in front. -/
def slashed (cs : List Char) : List Char := if cs.head? = some '/' then cs else '/' :: cs

/-- The text with a slash in front of its body. -/
def anchored : List Char → List Char
  | '!' :: rest => '!' :: slashed rest
  | cs => slashed cs

/-! ## Tidying -/

/-- Where no blank stands in front, none is taken away there. -/
theorem dropWhile_of_head {cs : List Char} (h : NoBlank cs.head?) :
    cs.dropWhile Text.isBlank = cs := by
  cases cs with
  | nil => rfl
  | cons c cs => rw [List.dropWhile_cons_of_neg (by simp [h c rfl])]

/-- A text without a blank at its end has nothing to be trimmed there. -/
theorem trimEnd_of_isSolid {cs : List Char} (h : IsSolid cs) : trimEnd cs = cs := by
  rw [trimEnd, dropWhile_of_head (by rwa [List.head?_reverse]), List.reverse_reverse]

/-- A space that a backslash keeps is trimmed. -/
theorem trimEnd_of_isSpaced {cs : List Char} (h : IsSpaced cs) : trimEnd cs = cs.dropLast := by
  obtain ⟨init, rfl⟩ := h
  have hspace : Text.isBlank ' ' = true := by decide
  have hbackslash : Text.isBlank '\\' = false := by decide
  simp [trimEnd, hspace, hbackslash]

/-- **What is trimmed** of a text with blanks at its end only. -/
theorem trimBy_eq_unspaced {cs : List Char} (hstart : NoBlank cs.head?)
    (hending : IsSolid cs ∨ IsSpaced cs) : Text.trimBy Text.isBlank cs = unspaced cs := by
  rw [Text.trimBy, dropWhile_of_head hstart, ← trimEnd, unspaced]
  split
  · next hspaced => exact trimEnd_of_isSpaced hspaced
  · next hspaced => exact trimEnd_of_isSolid (hending.resolve_right hspaced)

/-- Nothing is taken away in front of a text that does not begin with `./`. -/
theorem withoutHere_eq_self {cs : List Char} (h : ¬ ['.', '/'] <+: cs) :
    PatternList.withoutHere cs = cs := by
  unfold PatternList.withoutHere
  split
  · next rest => exact absurd ⟨rest, rfl⟩ h
  · rfl

/-- A text begins with its body, or with the sign of negation. -/
theorem body_cases (cs : List Char) : body cs = cs ∨ cs = '!' :: body cs := by
  unfold body
  split
  · exact .inr rfl
  · exact .inl rfl

namespace IsNeat

variable {text : String} (h : IsNeat text)
include h

/-- No blank stands in front of a neat text. -/
theorem head_text : NoBlank text.toList.head? := by
  rcases body_cases text.toList with heq | heq
  · exact heq ▸ h.start
  · rw [heq]
    rintro c ⟨⟩
    decide

/-- No blank stands at the end of a neat text, but for one that a backslash keeps. -/
theorem last_text : IsSolid text.toList ∨ IsSpaced text.toList := by
  rcases body_cases text.toList with heq | heq
  · exact heq ▸ h.ending
  · rw [heq]
    refine h.ending.imp (fun hsolid c hc => ?_) fun hspaced => hspaced.trans (List.suffix_cons _ _)
    rcases eq_or_ne (body text.toList) [] with hnil | hne
    · rw [hnil] at hc
      cases hc
      decide
    · rw [List.getLast?_cons_of_ne_nil hne] at hc
      exact hsolid c hc

/-- A neat text does not begin with `./`. -/
theorem notHere_text : ¬ ['.', '/'] <+: text.toList := by
  rcases body_cases text.toList with heq | heq
  · exact heq ▸ h.notHere
  · rw [heq, List.cons_prefix_cons]
    rintro ⟨hsign, -⟩
    cases hsign

/-- A neat text is trimmed by taking the last space away, if a backslash keeps one there. -/
theorem trim : (Text.trim text).toList = unspaced text.toList := by
  rw [Text.trim, String.toList_ofList, trimBy_eq_unspaced h.head_text h.last_text]

/-- A neat text is blank only if it is empty. -/
theorem isEmpty_trim : (Text.trim text).isEmpty = true ↔ text = "" := by
  have hspaced : IsSpaced text.toList → text.toList.dropLast ≠ [] ∧ text.toList ≠ [] := by
    rintro ⟨init, heq⟩
    simp [← heq]
  rw [String.isEmpty_iff, ← String.toList_eq_nil_iff, h.trim, ← String.toList_eq_nil_iff, unspaced]
  split
  · next hspace => exact iff_of_false (hspaced hspace).1 (hspaced hspace).2
  · rfl

/-- **A neat text** is tidied by taking the last space away and putting a slash in front. -/
theorem tidy : PatternList.tidy false text = String.ofList (unspaced text.toList) ∧
    PatternList.tidy true text = String.ofList (slashed (unspaced text.toList)) := by
  have hprefix : unspaced text.toList <+: text.toList := by
    rw [unspaced]
    split
    · exact List.dropLast_prefix _
    · exact List.prefix_rfl
  have hbare : PatternList.withoutHere (Text.trim text).toList = unspaced text.toList := by
    rw [h.trim, withoutHere_eq_self fun hhere => h.notHere_text (hhere.trans hprefix)]
  rw [PatternList.tidy, PatternList.tidy, hbare, slashed]
  refine ⟨by simp, ?_⟩
  split <;> split <;> simp_all

end IsNeat

/-! ## Patterns with a slash in front -/

namespace Pattern

/-- **A pattern with a slash in front** takes nothing back. -/
theorem kept_of_read_slash {text : String} (htext : text.toList.head? = some '/') {p : Pattern}
    (h : read text = .ok (some p)) : p.negated = false := by
  have hprefix := trimmed_prefix text.toList
  unfold read at h
  dsimp only at h
  generalize (if ['\\', ' '].isSuffixOf text.toList then text.toList else trimEnd text.toList) = cs
    at h hprefix
  split at h
  · cases h
  · cases h
  · cases h
  · obtain ⟨after, hafter⟩ := hprefix
    rw [← hafter] at htext
    cases htext
  · obtain ⟨shape, -, h⟩ := bind_eq_ok.1 h
    cases shape with
    | none => cases h
    | some shape => cases h; rfl

/-- **A text without a blank at its end** that is neither a comment nor negated is read exactly if
its segments are legible. -/
theorem exists_read_iff {cs : List Char} (hsolid : IsSolid cs) (hsign : cs.head? ≠ some '!')
    (hcomment : cs.head? ≠ some '#') (hempty : cs ≠ []) (hroot : cs ≠ ['/']) :
    (∃ p, read (String.ofList cs) = .ok p) ↔
      rooted (splitSlashes cs) ≠ [] ∧ IsLegible (outcome (splitSlashes cs)) := by
  have hread : read (String.ofList cs) =
      (Option.map (Pattern.mk false)) <$> Shape.read (String.ofList cs) (splitSlashes cs) := by
    rw [read, String.toList_ofList, trimEnd_of_isSolid hsolid, ite_self]
    split <;> first | rfl | simp_all
  have hmap : (∃ p, read (String.ofList cs) = .ok p) ↔
      ∃ shape, Shape.read (String.ofList cs) (splitSlashes cs) = .ok shape := by
    simp only [hread, map_eq_ok]
    exact ⟨fun ⟨_, shape, h, _⟩ => ⟨shape, h⟩, fun ⟨shape, h⟩ => ⟨_, shape, h, rfl⟩⟩
  rw [hmap, Shape.exists_read_iff]

/-- **A slash in front** of a text that is read leaves it one that is read. -/
theorem exists_read_slashed {cs : List Char} (hsolid : IsSolid cs) (hsign : cs.head? ≠ some '!')
    (hcomment : cs.head? ≠ some '#') (h : ∃ p, read (String.ofList cs) = .ok p) :
    ∃ p, read (String.ofList (slashed cs)) = .ok p := by
  rw [slashed]
  split
  · exact h
  · next hslash =>
    rcases eq_or_ne cs [] with rfl | hne
    · exact ⟨none, by decide +kernel⟩
    have hsolid' : IsSolid ('/' :: cs) := by rwa [IsSolid, List.getLast?_cons_of_ne_nil hne]
    have hroot : cs ≠ ['/'] := fun heq => hslash (by rw [heq]; rfl)
    rw [exists_read_iff hsolid hsign hcomment hne hroot] at h
    rw [exists_read_iff hsolid' (by simp) (by simp) (by simp) (by simpa using hne), splitSlashes,
      if_pos rfl, outcome_empty]
    exact ⟨splitSlashes_ne_nil cs, h.2⟩

end Pattern

/-! ## What patterns say -/

namespace PatternList

/-- The patterns that some texts are, as they are written. -/
def ofTexts (texts : List String) : Except PatternError PatternList :=
  (fun patterns => ⟨patterns.filterMap id⟩) <$> texts.mapM Pattern.read

/-- What is decided about paths. Where there is no list nothing is selected. -/
def decides (o : Option PatternList) (path : String) : Bool := o.any (·.selects path)

/-- The first text is read before the others. -/
theorem ofTexts_cons (text : String) (texts : List String) :
    ofTexts (text :: texts) = do
      let first ← Pattern.read text
      let later ← ofTexts texts
      return ⟨first.toList ++ later.patterns⟩ := by
  rw [ofTexts, ofTexts, List.mapM_cons]
  rcases Pattern.read text with e | _ | p
  · rfl
  all_goals cases texts.mapM Pattern.read <;> rfl

/-- Texts that are no patterns may be left out. -/
theorem ofTexts_filter {keep : String → Bool} {f : String → String} {texts : List String}
    (h : ∀ text ∈ texts, keep text = false → Pattern.read (f text) = .ok none) :
    ofTexts ((texts.filter keep).map f) = ofTexts (texts.map f) := by
  induction texts with
  | nil => rfl
  | cons text texts ih =>
      rw [List.forall_mem_cons] at h
      rw [List.map_cons, ofTexts_cons]
      cases hkeep : keep text with
      | false =>
          rw [List.filter_cons_of_neg (by simp [hkeep]), ih h.2, h.1 hkeep]
          cases ofTexts (texts.map f) <;> rfl
      | true => rw [List.filter_cons_of_pos hkeep, List.map_cons, ofTexts_cons, ih h.2]

/-- **What is read decides** as the tidied texts do. -/
theorem decides_read (anchored : Bool) (texts : List String) :
    (read anchored texts).map decides = (ofTexts (texts.map (tidy anchored))).map selects := by
  have hblank : ∀ text ∈ texts, (!(Text.trim text).isEmpty) = false →
      Pattern.read (tidy anchored text) = .ok none := by
    intro text _ hempty
    rw [Bool.not_eq_false', String.isEmpty_iff] at hempty
    rw [tidy, hempty]
    cases anchored <;> decide +kernel
  rw [← ofTexts_filter hblank, read]
  split
  · next hempty =>
    rw [List.isEmpty_iff.1 hempty]
    rfl
  · rw [ofTexts]
    cases ((texts.filter fun t => !(Text.trim t).isEmpty).map (tidy anchored)).mapM Pattern.read <;>
      rfl

/-- **There are patterns** exactly if each of the texts is one, or none at all. -/
theorem exists_ofTexts_iff {texts : List String} :
    (∃ l, ofTexts texts = .ok l) ↔ ∀ text ∈ texts, ∃ p, Pattern.read text = .ok p := by
  rw [← exists_mapM_iff]
  simp only [ofTexts, map_eq_ok]
  exact ⟨fun ⟨_, ps, h, _⟩ => ⟨ps, h⟩, fun ⟨ps, h⟩ => ⟨_, ps, h, rfl⟩⟩

/-- Something is read exactly if the tidied texts are patterns. -/
theorem exists_read_iff_ofTexts {anchored : Bool} {texts : List String} :
    (∃ o, read anchored texts = .ok o) ↔ ∃ l, ofTexts (texts.map (tidy anchored)) = .ok l := by
  have h := decides_read anchored texts
  cases hread : read anchored texts <;> cases hl : ofTexts (texts.map (tidy anchored)) <;>
    rw [hread, hl] at h <;> simp_all [Except.map]

/-- There is no list exactly if all texts are blank. -/
theorem read_eq_none_iff {anchored : Bool} {texts : List String} :
    read anchored texts = .ok none ↔ ∀ text ∈ texts, (Text.trim text).isEmpty = true := by
  rw [read]
  split
  · next hempty => exact iff_of_true rfl (by simpa [List.filter_eq_nil_iff] using hempty)
  · next hempty =>
    refine iff_of_false (fun h => ?_) fun h => hempty (by simpa [List.filter_eq_nil_iff] using h)
    obtain ⟨ps, -, h⟩ := bind_eq_ok.1 h
    cases h

/-- **An anchored list** takes nothing back. -/
theorem kept_of_read_anchored {texts : List String} {l : PatternList}
    (h : read true texts = .ok (some l)) : ∀ p ∈ l.patterns, p.negated = false := by
  unfold read at h
  dsimp only at h
  split at h
  · cases h
  · obtain ⟨patterns, hpatterns, h⟩ := bind_eq_ok.1 h
    cases h
    intro p hp
    obtain ⟨p', hp', heq⟩ := List.mem_filterMap.1 hp
    obtain ⟨given, hgiven, hread⟩ := exists_of_mem_mapM hpatterns hp'
    obtain ⟨text, -, rfl⟩ := List.mem_map.1 hgiven
    refine Pattern.kept_of_read_slash ?_ (hread.trans (congrArg _ heq))
    rw [tidy]
    split <;> simp_all

end PatternList

open PatternList

/-- A text that is not negated is anchored by a slash in front. -/
theorem anchored_eq_slashed {cs : List Char} (h : cs.head? ≠ some '!') :
    anchored cs = slashed cs := by
  unfold anchored
  split
  · exact absurd rfl h
  · rfl

/-- Texts with other characters. -/
def rewritten (f : List Char → List Char) (texts : List String) : List String :=
  texts.map fun text => .ofList (f text.toList)

/-- Texts are rewritten alike by what does the same to each of them. -/
theorem rewritten_congr {f g : List Char → List Char} {texts : List String}
    (h : ∀ text ∈ texts, f text.toList = g text.toList) : rewritten f texts = rewritten g texts :=
  List.map_congr_left fun text htext => by rw [h text htext]

/-- Texts that nothing is done to stay as they are. -/
theorem rewritten_eq_self {f : List Char → List Char} {texts : List String}
    (h : ∀ text ∈ texts, f text.toList = text.toList) : rewritten f texts = texts := by
  rw [rewritten_congr (g := id) h, rewritten]
  simp

/-- **Neat texts** are tidied by taking the last spaces away and putting slashes in front. -/
theorem map_tidy {texts : List String} (hneat : ∀ text ∈ texts, IsNeat text) :
    texts.map (tidy false) = rewritten unspaced texts ∧
      texts.map (tidy true) = rewritten (slashed ∘ unspaced) texts :=
  ⟨List.map_congr_left fun text htext => (hneat text htext).tidy.1,
    List.map_congr_left fun text htext => (hneat text htext).tidy.2⟩

/-- **Tidying keeps the meaning** of patterns that are neat and have no space that a backslash keeps
at the end: they are read, and decide as they are written. So they do when they are anchored, unless
one of them is negated, and they are read unless one of them is a comment. In general a space at the
end is taken away, and the slash goes in front of everything: an anchored list takes nothing back.
Where all texts are empty there is no list. -/
theorem tidying_keeps_meaning {texts : List String} (hneat : ∀ text ∈ texts, IsNeat text) :
    (∀ anchored, read anchored texts = .ok none ↔ ∀ text ∈ texts, text = "") ∧
      (read false texts).map decides = (ofTexts (rewritten unspaced texts)).map selects ∧
      (read true texts).map decides =
        (ofTexts (rewritten (slashed ∘ unspaced) texts)).map selects ∧
      (∀ l, read true texts = .ok (some l) → ∀ p ∈ l.patterns, p.negated = false) ∧
      ((∀ text ∈ texts, ¬ IsSpaced text.toList) →
        (∃ o, read false texts = .ok o) ∧
        (read false texts).map decides = (ofTexts texts).map selects ∧
        ((∀ text ∈ texts, text.toList.head? ≠ some '!') →
          ((∀ text ∈ texts, text.toList.head? ≠ some '#') → ∃ o, read true texts = .ok o) ∧
          (read true texts).map decides = (ofTexts (rewritten anchored texts)).map selects)) := by
  obtain ⟨hbare, hslashed⟩ := map_tidy hneat
  have hread := decides_read false texts
  have hread' := decides_read true texts
  rw [hbare] at hread
  rw [hslashed] at hread'
  refine ⟨fun b => ?_, hread, hread', fun l hl => kept_of_read_anchored hl, fun hspace => ?_⟩
  · rw [read_eq_none_iff]
    exact forall₂_congr fun text htext => (hneat text htext).isEmpty_trim
  have hunspaced : ∀ text ∈ texts, unspaced text.toList = text.toList := fun text htext => by
    rw [unspaced, if_neg (hspace text htext)]
  have hsame : rewritten unspaced texts = texts := rewritten_eq_self hunspaced
  rw [exists_read_iff_ofTexts, hread, hbare, hsame, exists_ofTexts_iff]
  refine ⟨fun text htext => (hneat text htext).isReadable, rfl, fun hsign => ?_⟩
  have hanchored : rewritten (slashed ∘ unspaced) texts = rewritten anchored texts :=
    rewritten_congr fun text htext => by
      rw [Function.comp_apply, hunspaced text htext, anchored_eq_slashed (hsign text htext)]
  refine ⟨fun hcomment => ?_, by rw [hread', hanchored]⟩
  rw [exists_read_iff_ofTexts, exists_ofTexts_iff, hslashed, rewritten, List.forall_mem_map]
  intro text htext
  have hsolid := (hneat text htext).last_text.resolve_right (hspace text htext)
  rw [Function.comp_apply, hunspaced text htext]
  exact Pattern.exists_read_slashed hsolid (hsign text htext) (hcomment text htext)
    (by rw [String.ofList_toList]; exact (hneat text htext).isReadable)

/-- Scripts at any depth, and a folder. -/
theorem tidying_keeps_meaning_scripts :
    (∃ o, read false ["*.js", "lib/"] = .ok o) ∧
      (read false ["*.js", "lib/"]).map decides = (ofTexts ["*.js", "lib/"]).map selects ∧
      (∃ o, read true ["*.js", "lib/"] = .ok o) ∧
      (read true ["*.js", "lib/"]).map decides = (ofTexts ["/*.js", "/lib/"]).map selects := by
  have hneat : ∀ text ∈ ["*.js", "lib/"], IsNeat text := by decide +kernel
  obtain ⟨-, -, -, -, hkept⟩ := tidying_keeps_meaning hneat
  obtain ⟨hread, hdecides, hkept⟩ := hkept (by decide +kernel)
  obtain ⟨hread', hdecides'⟩ := hkept (by decide +kernel)
  exact ⟨hread, hdecides, hread' (by decide +kernel), hdecides'⟩

/-- **Tidying loses the meaning** of a negated pattern when it is anchored, and of a space that a
backslash keeps. -/
theorem meaning_lost :
    ((∀ text ∈ ["*.js", "!a.js"], IsNeat text) ∧ ∃ o l, read true ["*.js", "!a.js"] = .ok o ∧
      ofTexts (rewritten anchored ["*.js", "!a.js"]) = .ok l ∧
      decides o "a.js" = true ∧ l.selects "a.js" = false) ∧
    IsNeat "a\\ " ∧ read false ["a\\ "] = .error (.invalid "a\\") := by
  refine ⟨⟨by decide +kernel, _, _, rfl, rfl, by decide +kernel, by decide +kernel⟩,
    by decide +kernel, by decide +kernel⟩

end ScriptScrub.Glob
