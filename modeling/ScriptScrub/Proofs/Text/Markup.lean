import Mathlib.Data.List.TakeWhile
import ScriptScrub.Proofs.Result
import ScriptScrub.Text.Markup

/-!
# Text that is shown as it is

The console may take a tag for something else than text, and a backslash before a bracket, the name
of a picture, a tab and a control character. Text without any of them is shown as it is (`Verbatim`,
`Verbatim.shown`). All other text loses one of a few special characters and gains none
(`weight_shown`), so nothing else is shown as it is.
-/

namespace ScriptScrub.Text

/-- A character that the console may take for something else than itself. -/
def isSpecial (c : Char) : Bool := ['[', '\\', ':', '\t'].contains c || isConsoleControl c

/-- How many special characters there are in a text. -/
def weight (cs : List Char) : Nat := cs.countP isSpecial

/-- The special characters of two texts. -/
theorem weight_append (cs ds : List Char) : weight (cs ++ ds) = weight cs + weight ds :=
  List.countP_append

/-- The special characters of a text with one character in front. -/
theorem weight_cons (c : Char) (cs : List Char) :
    weight (c :: cs) = weight cs + if isSpecial c then 1 else 0 := List.countP_cons

/-! ## Tags -/

/-- A tag: a bracket, a character with which a tag can begin, and no other bracket before the one
that closes it. -/
def IsTag (tag : List Char) : Prop :=
  ∃ first body, isTagStart first = true ∧ (∀ c ∈ body, isNoBracket c = true) ∧
    tag = '[' :: first :: body ++ [']']

/-- A text that holds neither a tag nor a bracket with a backslash in front of it. -/
structure NoMarkup (cs : List Char) : Prop where
  noTag : ∀ tag, IsTag tag → ¬ tag <:+: cs
  noEscape : ¬ ['\\', '['] <:+: cs

/-- The tag that a text begins with. -/
theorem tagAt?_eq_some {cs body rest : List Char} (h : tagAt? cs = some (body, rest)) :
    IsTag ('[' :: body ++ [']']) ∧ cs = '[' :: body ++ ']' :: rest := by
  unfold tagAt? at h
  split at h
  · next first cs =>
    split at h
    · next hfirst =>
      split at h
      · next rest' hrest =>
        cases h
        refine ⟨⟨first, _, hfirst, fun c hc => List.mem_takeWhile_imp hc, rfl⟩, ?_⟩
        rw [List.cons_append, List.cons_append, ← hrest, List.takeWhile_append_dropWhile]
      · cases h
    · cases h
  · cases h

/-- A text that begins with a tag is one of which the tag is known. -/
theorem tagAt?_ne_none {tag cs : List Char} (htag : IsTag tag) (h : tag <+: cs) :
    tagAt? cs ≠ none := by
  obtain ⟨first, body, hfirst, hbody, rfl⟩ := htag
  obtain ⟨rest, rfl⟩ := h
  have hclose : ((body ++ [']'] ++ rest).dropWhile isNoBracket) = ']' :: rest := by
    rw [List.append_assoc, List.dropWhile_append_of_pos hbody]
    rfl
  change tagAt? ('[' :: first :: (body ++ [']'] ++ rest)) ≠ none
  rw [tagAt?.eq_1, if_pos hfirst, hclose]
  exact Option.some_ne_none _

/-- The characters among the pieces of a line. -/
def MarkupPiece.char? : MarkupPiece → Option Char
  | char c => some c
  | _ => none

/-- The characters of a text are those of its pieces. -/
theorem filterMap_char?_map (cs : List Char) :
    (cs.map MarkupPiece.char).filterMap MarkupPiece.char? = cs := by
  rw [List.filterMap_map]
  exact List.filterMap_some

/-- A tag is not shown. -/
theorem char?_tagPiece (body : List Char) : (tagPiece body).char? = none := by
  unfold tagPiece
  split
  · split <;> rfl
  · rfl

/-- A text without markup stays one with a character in front, unless this begins a tag or is a
backslash before a bracket. -/
theorem NoMarkup.cons {c : Char} {cs : List Char} (h : NoMarkup cs)
    (htag : tagAt? ((c :: cs).dropWhile (· == '\\')) = none)
    (hescape : ¬ (c = '\\' ∧ cs.head? = some '[')) : NoMarkup (c :: cs) where
  noTag := by
    intro tag hisTag hinfix
    rcases List.infix_cons_iff.1 hinfix with hstart | hinfix
    · refine tagAt?_ne_none hisTag hstart ?_
      -- A tag begins with a bracket, so there is no backslash to be skipped.
      obtain ⟨first, body, -, -, rfl⟩ := hisTag
      obtain ⟨rfl, -⟩ := List.cons_prefix_cons.1 hstart
      exact htag
    · exact h.noTag tag hisTag hinfix
  noEscape := by
    intro hinfix
    rcases List.infix_cons_iff.1 hinfix with hstart | hinfix
    · obtain ⟨rfl, hbracket⟩ := List.cons_prefix_cons.1 hstart
      obtain ⟨rest, rfl⟩ := hbracket
      exact hescape ⟨rfl, rfl⟩
    · exact h.noEscape hinfix

/-- A text has no markup if it has none with a character in front. -/
theorem NoMarkup.of_cons {c : Char} {cs : List Char} (h : NoMarkup (c :: cs)) : NoMarkup cs :=
  ⟨fun tag hisTag hinfix => h.noTag tag hisTag (List.infix_cons hinfix),
    fun hinfix => h.noEscape (List.infix_cons hinfix)⟩

/-- Either a text has no markup and nothing but its characters for pieces, or it has some and loses
a special character. -/
def PlainOrLess (cs : List Char) : Prop :=
  (NoMarkup cs ∧ markupPieces cs = cs.map .char) ∨
    (¬ NoMarkup cs ∧ weight ((markupPieces cs).filterMap MarkupPiece.char?) < weight cs)

/-- In neither case it gains any. -/
theorem PlainOrLess.weight_le {cs : List Char} (h : PlainOrLess cs) :
    weight ((markupPieces cs).filterMap MarkupPiece.char?) ≤ weight cs := by
  rcases h with ⟨-, hpieces⟩ | ⟨-, hlt⟩
  · rw [hpieces, filterMap_char?_map]
  · exact hlt.le

/-- Of some backslashes each is a special character. -/
theorem weight_slashes (cs : List Char) :
    weight (cs.takeWhile (· == '\\')) = (cs.takeWhile (· == '\\')).length := by
  refine List.countP_eq_length.2 fun c hc => ?_
  have hslash := List.mem_takeWhile_imp (p := (· == '\\')) hc
  rw [eq_of_beq hslash]
  rfl

/-- **A text without markup** has nothing but its characters for pieces, and any other text loses a
special one. -/
theorem plainOrLess (cs : List Char) : PlainOrLess cs := by
  rw [PlainOrLess]
  fun_induction markupPieces cs with
  | case1 => exact .inl ⟨⟨fun tag ⟨_, _, _, _, htag⟩ h => by simp_all, by simp⟩, rfl⟩
  | case2 c rest slashes body after htag tag ih =>
      obtain ⟨hisTag, hsplit⟩ := tagAt?_eq_some htag
      have hcs : c :: rest = slashes ++ (('[' :: body ++ [']']) ++ after) := by
        rw [List.append_assoc, List.singleton_append, ← hsplit, List.takeWhile_append_dropWhile]
      have hslashes : weight slashes = slashes.length := weight_slashes _
      have hhalf : weight (slashes.take (slashes.length / 2)) ≤ slashes.length / 2 :=
        List.countP_le_length.trans (List.length_take_le _ _)
      have hafter := PlainOrLess.weight_le ih
      have hbracket : 0 < weight ('[' :: body ++ [']']) := by
        rw [List.cons_append, weight_cons]
        exact Nat.succ_pos _
      have hshown : weight (tag.filterMap MarkupPiece.char?) =
          if slashes.length % 2 = 1 then weight ('[' :: body ++ [']']) else 0 := by
        by_cases hodd : slashes.length % 2 = 1
        · simp only [tag, dif_pos hodd, if_pos hodd, List.filterMap_append, List.filterMap_cons,
            List.filterMap_nil, MarkupPiece.char?, filterMap_char?_map, List.append_nil]
        · simp only [tag, dif_neg hodd, if_neg hodd, List.filterMap_cons, char?_tagPiece]
          rfl
      refine .inr ⟨fun h => h.noTag _ hisTag ⟨slashes, after, ?_⟩, ?_⟩
      · rw [hcs, List.append_assoc]
      · rw [List.cons_append, List.cons_append, List.filterMap_cons_none rfl,
          List.filterMap_append, List.filterMap_append, filterMap_char?_map, hcs, weight_append,
          weight_append, hshown, weight_append slashes, weight_append ('[' :: body ++ [']']),
          hslashes]
        split <;> omega
  | case3 c rest htag hescape ih =>
      simp only [Bool.and_eq_true, decide_eq_true_eq] at hescape
      obtain ⟨rfl, hbracket⟩ := hescape
      obtain ⟨tail, rfl⟩ := List.head?_eq_some_iff.1 hbracket
      refine .inr ⟨fun h => h.noEscape ⟨[], tail, rfl⟩, ?_⟩
      rw [weight_cons '\\']
      exact Nat.lt_succ_of_le (PlainOrLess.weight_le ih)
  | case4 c rest htag hescape ih =>
      simp only [Bool.and_eq_true, decide_eq_true_eq] at hescape
      rcases ih with ⟨hplain, hpieces⟩ | ⟨hmarked, hlt⟩
      · exact .inl ⟨hplain.cons htag hescape, by rw [hpieces, List.map_cons]⟩
      · refine .inr ⟨fun h => hmarked h.of_cons, ?_⟩
        rw [List.filterMap_cons, MarkupPiece.char?, weight_cons, weight_cons]
        exact Nat.add_lt_add_right hlt _

/-- A tag at the start of a text, with no backslash in front of it. -/
theorem markupPieces_of_tag {cs body after : List Char}
    (h : tagAt? ('[' :: cs) = some (body, after)) :
    markupPieces ('[' :: cs) = .cut :: tagPiece body :: markupPieces after := by
  have hslashes : ('[' :: cs).takeWhile (· == '\\') = [] := rfl
  rw [markupPieces, hslashes]
  split
  · next body' after' htag =>
    have hsame : tagAt? ('[' :: cs) = some (body', after') := htag
    rw [h] at hsame
    cases hsame
    rfl
  · next hnone =>
    have hsame : tagAt? ('[' :: cs) = none := hnone
    rw [h] at hsame
    cases hsame

/-- A character at the start of a text that has no part in any markup. -/
theorem markupPieces_of_char {c : Char} (hbracket : c ≠ '[') (hslash : c ≠ '\\')
    (cs : List Char) : markupPieces (c :: cs) = .char c :: markupPieces cs := by
  have hskip : (c :: cs).dropWhile (· == '\\') = c :: cs :=
    List.dropWhile_cons_of_neg (by simpa using hslash)
  have hnone : tagAt? (c :: cs) = none := by
    unfold tagAt?
    split
    · next heq =>
      cases heq
      exact absurd rfl hbracket
    · rfl
  rw [markupPieces]
  split
  · next htag =>
    rw [hskip, hnone] at htag
    cases htag
  · rw [if_neg (by simp [hslash])]

/-- What is left of a line are the characters among its pieces. -/
theorem flatten_of_unmarked {tags : List String} {ps : List MarkupPiece}
    {runs : List (List Char)} (h : unmarked tags ps = .ok runs) :
    runs.flatten = ps.filterMap MarkupPiece.char? := by
  induction ps generalizing tags runs with
  | nil =>
      rw [unmarked] at h
      cases h
      rfl
  | cons p ps ih =>
      cases p with
      | char c =>
          rw [unmarked] at h
          obtain ⟨rest, hrest, rfl⟩ := map_eq_ok.1 h
          rw [List.filterMap_cons_some (f := MarkupPiece.char?) rfl, ← ih hrest]
          cases rest <;> rfl
      | cut =>
          rw [unmarked] at h
          obtain ⟨rest, hrest, rfl⟩ := map_eq_ok.1 h
          rw [List.filterMap_cons_none rfl, ← ih hrest]
          rfl
      | opening name =>
          rw [unmarked] at h
          obtain ⟨rest, hrest, rfl⟩ := map_eq_ok.1 h
          rw [List.filterMap_cons_none rfl, ← ih hrest]
          rfl
      | closing name? =>
          rw [List.filterMap_cons_none rfl]
          cases name? with
          | none =>
              cases tags with
              | nil =>
                  rw [unmarked] at h
                  cases h
              | cons tag tags =>
                  rw [unmarked] at h
                  obtain ⟨rest, hrest, rfl⟩ := map_eq_ok.1 h
                  rw [← ih hrest]
                  rfl
          | some name =>
              rw [unmarked] at h
              split at h
              · obtain ⟨rest, hrest, rfl⟩ := map_eq_ok.1 h
                rw [← ih hrest]
                rfl
              · cases h

/-- A line of nothing but characters is a single run. -/
theorem unmarked_map_char (tags : List String) (cs : List Char) :
    unmarked tags (cs.map .char) = .ok [cs] := by
  induction cs with
  | nil => rw [List.map_nil, unmarked]
  | cons c cs ih =>
      rw [List.map_cons, unmarked, ih]
      rfl

/-! ## Pictures -/

/-- The name between colons that a text begins with. -/
theorem codeAt?_eq_some {cs name rest : List Char} (h : codeAt? cs = some (name, rest)) :
    cs = ':' :: name ++ ':' :: rest := by
  unfold codeAt? at h
  split at h
  · next cs =>
    split at h
    · next rest' hrest =>
      cases h
      rw [List.cons_append, ← hrest, List.takeWhile_append_dropWhile]
    · cases h
  · cases h

/-- A name without a picture is shown as it is. -/
theorem shown_code {pictures : Pictures} {name : List Char} (h : picture? pictures name = none) :
    (RunPiece.code name).shown pictures = ':' :: name ++ [':'] := by
  rw [RunPiece.shown, h, Option.getD_none]

/-- A run is shown as it is if no name in it has a picture. -/
theorem pictured_eq {pictures : Pictures} {cs : List Char}
    (h : ∀ name, .code name ∈ runPieces cs → picture? pictures name = none) :
    pictured pictures cs = cs := by
  rw [pictured]
  fun_induction runPieces cs with
  | case1 => rfl
  | case2 c rest name after hcode ih =>
      rw [List.flatMap_cons, shown_code (h name List.mem_cons_self),
        ih fun name hname => h name (List.mem_cons_of_mem _ hname), codeAt?_eq_some hcode,
        List.append_assoc]
      rfl
  | case3 c rest hcode ih =>
      rw [List.flatMap_cons, ih fun name hname => h name (List.mem_cons_of_mem _ hname)]
      rfl

/-- A character that is no colon is shown as it is. -/
theorem pictured_cons {c : Char} (hc : c ≠ ':') (pictures : Pictures) (cs : List Char) :
    pictured pictures (c :: cs) = c :: pictured pictures cs := by
  have hnone : codeAt? (c :: cs) = none := by
    unfold codeAt?
    split
    · next heq =>
      cases heq
      exact absurd rfl hc
    · rfl
  rw [pictured, runPieces]
  split
  · next hcode =>
    rw [hnone] at hcode
    cases hcode
  · rw [List.flatMap_cons]
    rfl

/-- The pictures of a console have no special characters. -/
def Pictures.Plain (pictures : Pictures) : Prop :=
  ∀ name picture, pictures name = some picture → weight picture.toList = 0

/-- The picture of a name has no special characters. -/
theorem weight_picture? {pictures : Pictures} (hplain : pictures.Plain) {name picture : List Char}
    (h : picture? pictures name = some picture) : weight picture = 0 := by
  rw [picture?] at h
  split at h
  · next ending mark hfind =>
    obtain ⟨shown, hshown, rfl⟩ := Option.map_eq_some_iff.1 h
    have hmark : mark = '\uFE0F' ∨ mark = '\uFE0E' := by
      have hmem := List.mem_of_find?_eq_some hfind
      simp only [looks, List.mem_cons, Prod.mk.injEq, List.not_mem_nil, or_false] at hmem
      exact hmem.imp And.right And.right
    rw [weight_append, hplain _ _ hshown]
    rcases hmark with rfl | rfl <;> rfl
  · obtain ⟨shown, hshown, rfl⟩ := Option.map_eq_some_iff.1 h
    exact hplain _ _ hshown

/-- **A run gains no special characters** by its pictures, and loses some if it has any. -/
theorem weight_pictured {pictures : Pictures} (hplain : pictures.Plain) (cs : List Char) :
    weight (pictured pictures cs) ≤ weight cs ∧
      (weight (pictured pictures cs) = weight cs →
        ∀ name, .code name ∈ runPieces cs → picture? pictures name = none) := by
  rw [pictured]
  fun_induction runPieces cs with
  | case1 => exact ⟨le_rfl, fun _ _ h => nomatch h⟩
  | case2 c rest name after hcode ih =>
      obtain ⟨hle, hnone⟩ := ih
      have hraw : weight (c :: rest) = weight (':' :: name ++ [':']) + weight after := by
        rw [← weight_append, codeAt?_eq_some hcode, List.append_assoc]
        rfl
      rw [List.flatMap_cons, weight_append, hraw]
      cases hpicture : picture? pictures name with
      | none =>
          rw [shown_code hpicture]
          refine ⟨Nat.add_le_add_left hle _, fun h name' hname' => ?_⟩
          rcases List.mem_cons.1 hname' with heq | hname'
          · cases heq
            exact hpicture
          · exact hnone (Nat.add_left_cancel h) name' hname'
      | some picture =>
          have hcolon : 0 < weight (':' :: name ++ [':']) := by
            rw [List.cons_append, weight_cons]
            exact Nat.succ_pos _
          rw [RunPiece.shown, hpicture, Option.getD_some, weight_picture? hplain hpicture]
          exact ⟨by omega, fun h => absurd h (by omega)⟩
  | case3 c rest hcode ih =>
      obtain ⟨hle, hnone⟩ := ih
      rw [List.flatMap_cons, weight_append, RunPiece.shown, ← List.singleton_append (l := rest),
        weight_append [c]]
      refine ⟨Nat.add_le_add_left hle _, fun h name hname => ?_⟩
      rcases List.mem_cons.1 hname with heq | hname
      · cases heq
      · exact hnone (Nat.add_left_cancel h) name hname

/-! ## Lines -/

/-- A text without tabs is not changed by them. -/
theorem expandTabs_eq {cs : List Char} (h : '\t' ∉ cs) (column : Nat) :
    expandTabs column cs = cs := by
  induction cs generalizing column with
  | nil => rfl
  | cons c cs ih =>
      rw [List.mem_cons, not_or] at h
      rw [expandTabs, if_neg (Ne.symm h.1), ih h.2]

/-- **A text gains no special characters** by its tabs, and loses some if it has any. -/
theorem weight_expandTabs (column : Nat) (cs : List Char) :
    weight (expandTabs column cs) ≤ weight cs ∧
      (weight (expandTabs column cs) = weight cs → '\t' ∉ cs) := by
  induction cs generalizing column with
  | nil => exact ⟨le_rfl, fun _ => List.not_mem_nil⟩
  | cons c cs ih =>
      rw [expandTabs]
      split
      · next htab =>
        subst htab
        have hspaces : ∀ n, weight (List.replicate n ' ') = 0 := fun n =>
          List.countP_eq_zero.2 fun c hc => by
            rw [List.eq_of_mem_replicate hc]
            decide
        obtain ⟨hle, -⟩ := ih (column + (8 - column % 8))
        have htabs : weight ('\t' :: cs) = weight cs + 1 := weight_cons _ _
        rw [weight_append, hspaces, htabs]
        exact ⟨by omega, fun h => absurd h (by omega)⟩
      · next hother =>
        obtain ⟨hle, hnone⟩ := ih (if c = '\n' then 0 else column + 1)
        rw [weight_cons, weight_cons]
        refine ⟨Nat.add_le_add_right hle _, fun h => ?_⟩
        rw [List.mem_cons, not_or]
        exact ⟨Ne.symm hother, hnone (Nat.add_right_cancel h)⟩

/-- **A text gains no special characters** by the ones that are not shown, and loses some if it has
any. -/
theorem weight_filter (cs : List Char) :
    weight (cs.filter fun c => !isConsoleControl c) ≤ weight cs ∧
      (weight (cs.filter fun c => !isConsoleControl c) = weight cs →
        ∀ c ∈ cs, isConsoleControl c = false) := by
  refine ⟨List.filter_sublist.countP_le, fun h => ?_⟩
  induction cs with
  | nil => exact nofun
  | cons c cs ih =>
      have hle : weight (cs.filter fun c => !isConsoleControl c) ≤ weight cs :=
        List.filter_sublist.countP_le
      rw [List.filter_cons] at h
      split at h
      · next hshown =>
        rw [weight_cons, weight_cons] at h
        exact List.forall_mem_cons.2 ⟨by simpa using hshown, ih (Nat.add_right_cancel h)⟩
      · next hcontrol =>
        have hspecial : isSpecial c = true := by
          rw [isSpecial, Bool.or_eq_true]
          exact .inr (by simpa using hcontrol)
        rw [weight_cons, if_pos hspecial] at h
        omega

/-- A text that the console shows as it is. -/
structure Verbatim (pictures : Pictures) (cs : List Char) : Prop extends NoMarkup cs where
  noPicture : ∀ name, .code name ∈ runPieces cs → picture? pictures name = none
  noTab : '\t' ∉ cs
  noControl : ∀ c ∈ cs, isConsoleControl c = false

/-- What is shown of some runs from a column on. -/
def shownFrom (pictures : Pictures) (column : Nat) (runs : List (List Char)) : List Char :=
  expandTabs column ((runs.flatMap (pictured pictures)).filter fun c => !isConsoleControl c)

/-- **Such a text** is one run, and is shown as it is. -/
theorem Verbatim.shown {pictures : Pictures} {cs : List Char} (h : Verbatim pictures cs)
    (column : Nat) : unmarked [] (markupPieces cs) = .ok [cs] ∧
      shownFrom pictures column [cs] = cs := by
  have hpieces : markupPieces cs = cs.map .char := by
    rcases plainOrLess cs with ⟨-, hpieces⟩ | ⟨hmarked, -⟩
    · exact hpieces
    · exact absurd h.toNoMarkup hmarked
  have hfilter : cs.filter (fun c => !isConsoleControl c) = cs :=
    List.filter_eq_self.2 fun c hc => by rw [h.noControl c hc, Bool.not_false]
  refine ⟨by rw [hpieces, unmarked_map_char], ?_⟩
  rw [shownFrom, List.flatMap_singleton, pictured_eq h.noPicture, hfilter, expandTabs_eq h.noTab]

/-- **What is shown of a text** has no more special characters than the text, and if it has as many
it is the text. -/
theorem weight_shown {pictures : Pictures} (hplain : pictures.Plain) {cs : List Char}
    {runs : List (List Char)} (h : unmarked [] (markupPieces cs) = .ok runs) (column : Nat) :
    weight (shownFrom pictures column runs) ≤ weight cs ∧
      (weight (shownFrom pictures column runs) = weight cs → Verbatim pictures cs) := by
  have hruns : ∀ runs : List (List Char),
      weight (runs.flatMap (pictured pictures)) ≤ weight runs.flatten := by
    intro runs
    induction runs with
    | nil => exact le_rfl
    | cons run runs ih =>
        rw [List.flatMap_cons, List.flatten_cons, weight_append, weight_append]
        exact Nat.add_le_add (weight_pictured hplain run).1 ih
  obtain ⟨htabs, hnoTab⟩ := weight_expandTabs column
    ((runs.flatMap (pictured pictures)).filter fun c => !isConsoleControl c)
  obtain ⟨hcontrols, hnoControl⟩ := weight_filter (runs.flatMap (pictured pictures))
  have hpictures := hruns runs
  have hflatten := flatten_of_unmarked h
  rw [shownFrom]
  rcases plainOrLess cs with ⟨hnoMarkup, hpieces⟩ | ⟨-, hlt⟩
  · rw [hpieces, unmarked_map_char] at h
    cases h
    rw [List.flatMap_singleton] at htabs hnoTab hcontrols hnoControl ⊢
    obtain ⟨hle, hnoPicture⟩ := weight_pictured hplain cs
    refine ⟨by omega, fun heq => ?_⟩
    have hnone := hnoPicture (by omega)
    have hall := hnoControl (by omega)
    have hnever := hnoTab (by omega)
    rw [pictured_eq hnone] at hall hnever
    refine ⟨hnoMarkup, hnone, fun htab => hnever (List.mem_filter.2 ⟨htab, ?_⟩), hall⟩
    rw [hall _ htab, Bool.not_false]
  · rw [← hflatten] at hlt
    exact ⟨by omega, fun heq => absurd heq (by omega)⟩

end ScriptScrub.Text
