import ScriptScrub.Proofs.Edit.LineFeed
import ScriptScrub.Proofs.Edit.BlankLine

/-!
# Lines that removals empty

A line of which removals leave only blanks goes with its terminator, by however many removals
(`Emptied`). Edits are applied from the last to the first, so each of them but the leftmost one
takes the blanks behind it up to the terminator, and leaves the terminator to the next one
(`Clearing`); the leftmost one sees both ends of the line. With `splicesKeep_blankFrom` it follows
that the blank lines of the output are untouched ones of the source (`blankLines_kept`).
-/

namespace ScriptScrub.Edit

open Text (encode)

/-- Of the line from `l` to the line feed at `t`, which no edit covers, removals leave only blanks
and the terminator. Lines that the removal of a line feed joins count as one. -/
structure Emptied (source : Bytes) (edits : List Edit) (l t : Nat) : Prop where
  starts : startsLine source l = true
  lineFeed : source[t]? = some 0x0A
  bare : uncovered edits t = true
  blank : ∀ i, l ≤ i → i < t → uncovered edits i = true →
    ∃ b, source[i]? = some b ∧ isSpacing b = true ∧ b ≠ 0x0A
  meets : ∃ e ∈ edits, l < e.stop ∧ e.start < t
  removed : ∀ e ∈ edits, l < e.stop → e.start < t → l ≤ e.start ∧ e.isRemoval = true

/-- None of the marks is that of a position from `l` to `t`. -/
def ClearOf (l t : Nat) (marks : List Mark) : Prop :=
  ∀ m ∈ marks, ∀ i, l ≤ i → i ≤ t → m.origin ≠ .source i

/-- The bytes that end a line. -/
def IsTerminator (bytes : Bytes) : Prop := bytes = [0x0A] ∨ bytes = [0x0D, 0x0A]

/-- How far the removals have come with the line from `l` to `t`. -/
inductive Clearing (source : Bytes) (edits : List Edit) (l t : Nat) : Nat → List Mark → Prop where
  /-- The line still stands. -/
  | ahead {c : Nat} {tail : List Mark} (hc : t < c) : Clearing source edits l t c tail
  /-- The front of the line stands, up to a byte that is no blank, and its terminator. -/
  | within {c : Nat} {ending rest : List Mark} (hl : l < c) (hc : c < t)
      (hlast : ∃ b, source[c - 1]? = some b ∧ isBlank b = false)
      (hending : IsTerminator (bytesOf ending)) (hrest : ClearOf l t rest) :
      Clearing source edits l t c (ending ++ rest)
  /-- The line has gone, but for what edits still to come cover. -/
  | done {c : Nat} {tail : List Mark} (hc : c ≤ t) (htail : ClearOf l t tail)
      (hcovered : ∀ i, l ≤ i → i < c → uncovered edits i = false) : Clearing source edits l t c tail

/-! ## Terminators -/

/-- Widening to the right comes to the terminator behind blanks, and takes it along. -/
theorem IsTerminator.spec {buffer blanks ending rest : Bytes} {stop : Nat}
    (h : IsTerminator ending) (hdrop : buffer.drop stop = blanks ++ (ending ++ rest))
    (hblank : ∀ b ∈ blanks, isBlank b = true) :
    rightOf buffer stop = stop + blanks.length ∧
      endsLine buffer (stop + blanks.length) = true ∧
      afterTerminator buffer (stop + blanks.length) = stop + blanks.length + ending.length := by
  have hbyte : ∀ i : Nat, buffer[stop + blanks.length + i]? = (ending ++ rest)[i]? := fun i => by
    rw [Nat.add_assoc, ← List.getElem?_drop, hdrop,
      List.getElem?_append_right (Nat.le_add_right _ _), Nat.add_sub_cancel_left]
  have hfirst := hbyte 0
  have hsecond := hbyte 1
  rw [Nat.add_zero] at hfirst
  rw [rightOf, hdrop, List.takeWhile_append_of_pos hblank, List.length_append]
  rcases h with rfl | rfl
  · have hlf : buffer[stop + blanks.length]? = some 0x0A := hfirst
    have hcr : ¬ buffer[stop + blanks.length]? = some 0x0D := by
      rw [hlf]
      decide
    rw [afterTerminator, if_neg hcr, if_pos hlf, endsLine, hlf]
    exact ⟨rfl, rfl, rfl⟩
  · have hcr : buffer[stop + blanks.length]? = some 0x0D := hfirst
    have hlf : buffer[stop + blanks.length + 1]? = some 0x0A := hsecond
    rw [afterTerminator, if_pos hcr, if_pos hlf, endsLine, hcr]
    exact ⟨rfl, rfl, rfl⟩

/-! ## Covered positions -/

section
variable {source : Bytes} {edits : List Edit} {e : Edit} {c l t : Nat} {tail : List Mark}

/-- A position that is not uncovered lies in the range of an edit. -/
theorem exists_covers {i : Nat} (h : uncovered edits i = false) :
    ∃ d ∈ edits, d.start ≤ i ∧ i < d.stop := by
  by_contra hnone
  have hun : uncovered edits i = true := uncovered_eq_true fun d hd => by
    by_contra hcovers
    exact hnone ⟨d, hd, by omega, by omega⟩
  rw [h] at hun
  cases hun

/-- No edit covers what stands between an edit whose turn it is and the tail. -/
theorem Turn.uncovered (h : Turn source edits e c tail) {i : Nat} (hstop : e.stop ≤ i)
    (hc : i < c) : uncovered edits i = true :=
  uncovered_eq_true fun d hd => by
    have := h.proper
    rcases h.apart d hd with rfl | hd | hd
    · exact .inr hstop
    · omega
    · omega

/-- Before the last byte of the line, what no edit covers is blank: a line feed follows a carriage
return, and no edit could take that alone. -/
theorem Emptied.isBlank (h : Emptied source edits l t) (hinline : Inline source edits) {i : Nat}
    (hl : l ≤ i) (ht : i + 1 < t) (hun : Edit.uncovered edits i = true) :
    ∃ b, source[i]? = some b ∧ Edit.isBlank b = true := by
  obtain ⟨b, hb, hspacing, hne⟩ := h.blank i hl (by omega) hun
  refine ⟨b, hb, ?_⟩
  rcases isBlank_or_return_of_isSpacing hspacing hne with hblank | rfl
  · exact hblank
  · have hlf := hinline.returns i hb
    cases hnext : Edit.uncovered edits (i + 1) with
    | true =>
        obtain ⟨b, hb, -, hne⟩ := h.blank (i + 1) (by omega) ht hnext
        rw [hlf, Option.some.injEq] at hb
        exact absurd hb.symm hne
    | false =>
        -- An edit that covered the line feed alone would start with it.
        obtain ⟨d, hd, hstart, hstop⟩ := exists_covers hnext
        have hside := of_decide_eq_true (List.all_eq_true.1 hun d hd)
        have heq : d.start = i + 1 := by omega
        exact absurd (hinline.start d hd _ (heq ▸ hlf)) (by decide)

/-- Up to where a line starts in front of a removal of the line, edits cover all. -/
theorem Turn.covered (h : Turn source edits e c tail) (hspaced : Spaced source edits)
    (hinline : Inline source edits) (hemptied : Emptied source edits l t) (ht : e.start < t)
    (hstart : startsLine source (leftOf source e.start) = true) {i : Nat} (hl : l ≤ i)
    (hi : i < leftOf source e.start) : Edit.uncovered edits i = false := by
  have hle := leftOf_le source e.start
  refine Bool.eq_false_iff.2 fun hun => ?_
  rcases startsLine_iff.1 hstart with hzero | hlf | ⟨⟨rest, rfl⟩, hlen⟩
  · omega
  · cases hlast : Edit.uncovered edits (leftOf source e.start - 1) with
    | true =>
        obtain ⟨b, hb, -, hne⟩ := hemptied.blank _ (by omega) (by omega) hlast
        rw [hlf, Option.some.injEq] at hb
        exact hne hb.symm
    | false =>
        -- The edit that covers the line feed ends before the blanks, so that it ends with it.
        obtain ⟨d, hd, hdstart, hdstop⟩ := exists_covers hlast
        have hproper := h.proper
        have hstop := h.stop_le
        have hbefore : d.stop ≤ leftOf source e.start := by
          refine hspaced.stop_le_leftOf hd h.mem ?_
          rcases h.apart d hd with rfl | hd | hd
          · omega
          · exact hd
          · omega
        have heq : d.stop - 1 = leftOf source e.start - 1 := by omega
        exact absurd (hinline.stop d hd _ (heq ▸ hlf)) (by decide)
  · obtain ⟨b, hb, hspacing, -⟩ := hemptied.blank i hl (by omega) hun
    have hi : i < byteOrderMark.length := hlen ▸ hi
    rw [List.getElem?_append_left hi] at hb
    have hmark : byteOrderMark.all (fun b => !isSpacing b) = true := by decide
    have hnot := List.all_eq_true.1 hmark b (List.mem_of_getElem? hb)
    rw [hspacing] at hnot
    cases hnot

/-! ## One removal of the line -/

/-- **A removal of the line** that only blanks part from the terminator takes the terminator along
if the line starts with it, and else leaves the terminator to the removal in front of it. -/
theorem Turn.clearing_removal (h : Turn source edits e c tail) (hspaced : Spaced source edits)
    (hinline : Inline source edits) (hemptied : Emptied source edits l t) (hl : l ≤ e.start)
    (ht : e.start < t) {blanks ending rest : List Mark}
    (hdrop : ((marked source).take c ++ tail).drop e.stop = blanks ++ (ending ++ rest))
    (hblank : ∀ b ∈ bytesOf blanks, isBlank b = true) (hending : IsTerminator (bytesOf ending))
    (hrest : ClearOf l t rest) {s : Span}
    (htidies : s.Tidies (source.take c ++ bytesOf tail) e.start e.stop) :
    Clearing source edits l t s.start
      (putMarks e s.replacement ++ ((marked source).take c ++ tail).drop s.stop) := by
  have hin : e.start ≤ source.length := Nat.le_trans h.start_le h.inside
  have hle := leftOf_le source e.start
  have hbytes : (source.take c ++ bytesOf tail).drop e.stop =
      bytesOf blanks ++ (bytesOf ending ++ bytesOf rest) := by
    rw [← bytesOf_buffer, ← bytesOf_append, ← bytesOf_append, ← hdrop, bytesOf, bytesOf,
      List.map_drop]
  obtain ⟨hright, hends, hafter⟩ := hending.spec hbytes hblank
  have hdrop' : ((marked source).take c ++ tail).drop (e.stop + (bytesOf blanks).length) =
      ending ++ rest := by
    rw [← List.drop_drop, hdrop, bytesOf, List.length_map, List.drop_left]
  have hnil : putMarks e [] = [] := rfl
  cases htidies with
  | line hstart =>
      rw [h.leftOf_eq, h.startsLine_eq] at hstart
      have hdrop'' : ((marked source).take c ++ tail).drop
          (e.stop + (bytesOf blanks).length + (bytesOf ending).length) = rest := by
        rw [← List.drop_drop, hdrop', bytesOf, List.length_map, List.drop_left]
      dsimp only
      rw [hright, hafter, hdrop'', h.leftOf_eq, hnil, List.nil_append]
      exact .done (by omega) hrest fun i hl hi =>
        h.covered hspaced hinline hemptied ht hstart hl hi
  | trailing hstart =>
      rw [h.leftOf_eq, h.startsLine_eq] at hstart
      dsimp only
      rw [hright, hdrop', h.leftOf_eq, hnil, List.nil_append]
      have hge := le_leftOf_of_startsLine hemptied.starts hl hin
      have hne : l ≠ leftOf source e.start := fun heq => by
        rw [← heq, hemptied.starts] at hstart
        cases hstart
      have hlt : leftOf source e.start - 1 < source.length := by
        have := h.proper
        have := h.stop_le
        have := h.inside
        omega
      exact .within (by omega) (by omega) ⟨_, List.getElem?_eq_getElem hlt,
        not_isBlank_leftOf hin (by omega) (List.getElem?_eq_getElem hlt)⟩ hending hrest
  | leading _ hend | broken _ hend | closed _ hend | spaced _ hend =>
      rw [hright, hends] at hend
      cases hend

/-! ## The turn of an edit -/

/-- The buffer from a position of the source on. -/
theorem drop_marks (tail : List Mark) (hc : c ≤ source.length) {lo hi : Nat} (hlo : lo ≤ hi)
    (hhi : hi ≤ c) :
    ((marked source).take c ++ tail).drop lo =
      ((marked source).take hi).drop lo ++ ((marked source).take c ++ tail).drop hi := by
  have hlen : lo ≤ (((marked source).take c ++ tail).take hi).length := by
    rw [take_marks hc hhi, List.length_take_of_le (by rw [length_marked]; omega)]
    exact hlo
  rw [← take_marks hc hhi tail, ← List.drop_append_of_le_length hlen, List.take_append_drop]

/-- The bytes of a part of the source. -/
theorem bytesOf_slice (source : Bytes) (lo hi : Nat) :
    bytesOf (((marked source).take hi).drop lo) = slice source lo hi := by
  rw [bytesOf, List.map_drop, List.map_take, ← bytesOf, bytesOf_marked, slice]

/-- A mark of the front of the source is that of a position there. -/
theorem origin_of_mem_take {hi : Nat} {m : Mark} (h : m ∈ (marked source).take hi) :
    ∃ i, m.origin = .source i ∧ i < hi := by
  obtain ⟨i, hi'⟩ := List.mem_iff_getElem?.1 h
  rw [List.getElem?_take] at hi'
  split at hi'
  · next hlt => exact ⟨i, (getElem?_marked.1 hi').2, hlt⟩
  · cases hi'

/-- While the line stands, an edit comes behind it, or it removes a part of the line. -/
theorem Turn.behind_or_removes (h : Turn source edits e c tail) (hinline : Inline source edits)
    (hemptied : Emptied source edits l t) (hc : t < c) :
    t < e.start ∨ l ≤ e.start ∧ e.start < t ∧ e.stop ≤ t ∧ e.isRemoval = true := by
  refine (Nat.lt_or_ge t e.start).imp_right fun hle => ?_
  have hne : e.start ≠ t := fun heq =>
    absurd (hinline.start e h.mem _ (heq ▸ hemptied.lineFeed)) (by decide)
  have hmeets : l < e.stop := by
    obtain ⟨d, hd, hl, ht⟩ := hemptied.meets
    have := h.proper
    rcases h.apart d hd with rfl | hd | hd <;> omega
  have hside := of_decide_eq_true (List.all_eq_true.1 hemptied.bare e h.mem)
  obtain ⟨hl, hrem⟩ := hemptied.removed e h.mem hmeets (by omega)
  exact ⟨hl, by omega, by omega, hrem⟩

/-- From where no edit covers a byte of the line any more, only blanks stand before the
terminator. -/
theorem Emptied.exists_terminator (h : Emptied source edits l t) (hinline : Inline source edits)
    {stop : Nat} (hl : l ≤ stop) (ht : stop ≤ t)
    (hun : ∀ i, stop ≤ i → i < t → Edit.uncovered edits i = true) :
    ∃ x, stop ≤ x ∧ x ≤ t ∧ (∀ b ∈ slice source stop x, Edit.isBlank b = true) ∧
      IsTerminator (slice source x (t + 1)) := by
  have hlf := slice_succ h.lineFeed
  have hblank : ∀ i b, stop ≤ i → i + 1 < t → source[i]? = some b → Edit.isBlank b = true := by
    intro i b hlo hhi hb
    obtain ⟨b', hb', hblank⟩ := h.isBlank hinline (by omega) hhi (hun i hlo (by omega))
    rw [hb, Option.some.injEq] at hb'
    rwa [hb']
  -- The terminator starts with the carriage return, if there is one.
  by_cases hcr : stop < t ∧ source[t - 1]? = some 0x0D
  · obtain ⟨hlt, hcr⟩ := hcr
    refine ⟨t - 1, by omega, by omega, fun b hb => ?_, .inr ?_⟩
    · obtain ⟨i, hlo, hhi, hb⟩ := mem_slice_iff.1 hb
      exact hblank i b hlo (by omega) hb
    · have hfirst := slice_succ hcr
      rw [Nat.sub_add_cancel (by omega)] at hfirst
      rw [← slice_append source (Nat.sub_le t 1) (Nat.le_succ t), hfirst, hlf,
        List.singleton_append]
  · refine ⟨t, ht, Nat.le_refl t, fun b hb => ?_, .inl hlf⟩
    obtain ⟨i, hlo, hhi, hb⟩ := mem_slice_iff.1 hb
    rcases Nat.lt_or_ge (i + 1) t with hlt | hge
    · exact hblank i b hlo hlt hb
    · obtain rfl : i = t - 1 := by omega
      obtain ⟨b', hb', hspacing, hne⟩ := h.blank _ (by omega) hhi (hun _ hlo hhi)
      rw [hb, Option.some.injEq] at hb'
      subst hb'
      refine (isBlank_or_return_of_isSpacing hspacing hne).resolve_right ?_
      rintro rfl
      exact hcr ⟨by omega, hb⟩

/-- Behind a removal of the line only blanks stand before the terminator. -/
theorem Turn.exists_ending (h : Turn source edits e c tail) (hinline : Inline source edits)
    (hemptied : Emptied source edits l t) (hc : t < c) (hl : l ≤ e.stop) (ht : e.stop ≤ t) :
    ∃ blanks ending rest,
      ((marked source).take c ++ tail).drop e.stop = blanks ++ (ending ++ rest) ∧
      (∀ b ∈ bytesOf blanks, Edit.isBlank b = true) ∧ IsTerminator (bytesOf ending) ∧
      ClearOf l t rest := by
  obtain ⟨x, hx, hxt, hblank, hending⟩ := hemptied.exists_terminator hinline hl ht
    fun i hstop hi => h.uncovered hstop (Nat.lt_trans hi hc)
  rw [← bytesOf_slice] at hblank hending
  have hdrop := drop_marks tail h.inside hx (by omega)
  rw [drop_marks tail h.inside (by omega : x ≤ t + 1) hc] at hdrop
  refine ⟨_, _, _, hdrop, hblank, hending, fun m hm i _ hi horigin => ?_⟩
  have := h.le_of_mem_drop hc hm horigin
  omega

/-- Within the line an edit ends where what stands of the line does. -/
theorem Emptied.exists_last (h : Emptied source edits l t) (hinline : Inline source edits)
    (hl : l < c) (hc : c < t) (hlast : ∃ b, source[c - 1]? = some b ∧ Edit.isBlank b = false) :
    ∃ d ∈ edits, d.start < c ∧ c ≤ d.stop := by
  cases hun : Edit.uncovered edits (c - 1) with
  | true =>
      obtain ⟨b, hb, hnot⟩ := hlast
      obtain ⟨b', hb', hblank⟩ := h.isBlank hinline (by omega) (by omega) hun
      rw [hb, Option.some.injEq] at hb'
      rw [hb', hblank] at hnot
      cases hnot
  | false =>
      obtain ⟨d, hd, hstart, hstop⟩ := exists_covers hun
      exact ⟨d, hd, by omega, by omega⟩

/-- Within the line it is the turn of a removal that ends where what stands of the line does. -/
theorem Turn.removes_within (h : Turn source edits e c tail) (hinline : Inline source edits)
    (hemptied : Emptied source edits l t) (hl : l < c) (hc : c < t)
    (hlast : ∃ b, source[c - 1]? = some b ∧ Edit.isBlank b = false) :
    e.stop = c ∧ l ≤ e.start ∧ e.start < t ∧ e.isRemoval = true := by
  obtain ⟨d, hd, hstart, hstop⟩ := hemptied.exists_last hinline hl hc hlast
  have hproper := h.proper
  have hle := h.stop_le
  rcases h.apart d hd with rfl | hd | hd
  · have heq : d.stop = c := by omega
    obtain ⟨hl, hrem⟩ := hemptied.removed d hd (by omega) (by omega)
    exact ⟨heq, hl, by omega, hrem⟩
  · omega
  · omega

/-- Once the line has gone, no splice brings it back. -/
theorem Turn.clearing_done (h : Turn source edits e c tail) (hc : c ≤ t) (htail : ClearOf l t tail)
    (hcovered : ∀ i, l ≤ i → i < c → Edit.uncovered edits i = false) {left stop : Nat}
    (hleft : left ≤ e.start) (hstop : e.stop ≤ stop) (put : Bytes) :
    Clearing source edits l t left
      (putMarks e put ++ ((marked source).take c ++ tail).drop stop) := by
  have hstart := h.start_le
  refine .done (by omega) (fun m hm i hl ht horigin => ?_) fun i hl hi => hcovered i hl (by omega)
  rcases List.mem_append.1 hm with hm | hm
  · rw [origin_of_mem_putMarks hm] at horigin
    cases horigin
  · have hfrom := h.stop_le_of_mem hstop hm horigin
    rcases List.mem_append.1 (List.mem_of_mem_drop hm) with hm | hm
    · obtain ⟨j, hj, hlt⟩ := origin_of_mem_take hm
      rw [horigin, Origin.source.injEq] at hj
      subst hj
      have hun := hcovered i hl hlt
      rw [h.uncovered hfrom hlt] at hun
      cases hun
    · exact htail m hm i hl ht horigin

/-- **Every splice clears the line further.** -/
theorem splicesKeep_clearing (hspaced : Spaced source edits) (hinline : Inline source edits)
    (hemptied : Emptied source edits l t) :
    SplicesKeep source edits (Clearing source edits l t) where
  removal := by
    intro e c tail s hturn _ htidies hclearing
    have hremoves := htidies.removes hturn.stop_le_length
    have hleft := hremoves.leftOf_le
    rw [hturn.leftOf_eq] at hleft
    cases hclearing with
    | ahead hc =>
        rcases hturn.behind_or_removes hinline hemptied hc with ht | ⟨hl, ht, hstop, -⟩
        · have hlt := lt_leftOf hemptied.lineFeed rfl ht
            (Nat.le_trans hturn.start_le hturn.inside)
          exact .ahead (Nat.lt_of_lt_of_le hlt hleft)
        · have hproper := hturn.proper
          obtain ⟨blanks, ending, rest, hdrop, hblank, hending, hrest⟩ :=
            hturn.exists_ending hinline hemptied hc (by omega) hstop
          exact hturn.clearing_removal hspaced hinline hemptied hl ht hdrop hblank hending hrest
            htidies
    | @within ending rest hl hc hlast hending hrest =>
        obtain ⟨rfl, hl, ht, -⟩ := hturn.removes_within hinline hemptied hl hc hlast
        have hlen : ((marked source).take e.stop).length = e.stop :=
          List.length_take_of_le (by rw [length_marked]; exact hturn.inside)
        have hdrop : ((marked source).take e.stop ++ (ending ++ rest)).drop e.stop =
            [] ++ (ending ++ rest) := by
          rw [List.drop_append_of_le_length (by omega), List.drop_of_length_le (by omega)]
        exact hturn.clearing_removal hspaced hinline hemptied hl ht hdrop
          (fun b hb => absurd hb List.not_mem_nil) hending hrest htidies
    | done hc htail hcovered =>
        exact hturn.clearing_done hc htail hcovered hremoves.start_le hremoves.le_stop _
  replacement := by
    intro e c tail hturn hrem hclearing
    cases hclearing with
    | ahead hc =>
        rcases hturn.behind_or_removes hinline hemptied hc with ht | ⟨-, -, -, hrem'⟩
        · exact .ahead ht
        · rw [hrem] at hrem'
          cases hrem'
    | within hl hc hlast =>
        obtain ⟨-, -, -, hrem'⟩ := hturn.removes_within hinline hemptied hl hc hlast
        rw [hrem] at hrem'
        cases hrem'
    | done hc htail hcovered =>
        exact hturn.clearing_done hc htail hcovered (Nat.le_refl _) (Nat.le_refl _) _

/-- After the last splice nothing of the line is left. -/
theorem Clearing.clearOf (h : Clearing source edits l t c tail) (hover : Over source edits c tail)
    (hinline : Inline source edits) (hemptied : Emptied source edits l t) :
    ClearOf l t ((marked source).take c ++ tail) := by
  cases h with
  | ahead hc =>
      obtain ⟨d, hd, -, ht⟩ := hemptied.meets
      have := hover.before d hd
      omega
  | within hl hc hlast =>
      obtain ⟨d, hd, hstart, -⟩ := hemptied.exists_last hinline hl hc hlast
      have := hover.before d hd
      omega
  | done hc htail hcovered =>
      intro m hm i hl ht horigin
      rcases List.mem_append.1 hm with hm | hm
      · obtain ⟨j, hj, hlt⟩ := origin_of_mem_take hm
        rw [horigin, Origin.source.injEq] at hj
        subst hj
        obtain ⟨d, hd, hstart, -⟩ := exists_covers (hcovered i hl hlt)
        have := hover.before d hd
        omega
      · exact htail m hm i hl ht horigin

/-- **Removals leave no new blank line.** Spaced edits that begin and end inside lines, of a source
where a line feed follows each carriage return, and that put in no line break and not only blanks,
leave blank lines only that are lines of the source, with their marks. Of a line that removals empty
nothing stays, its terminator included. -/
theorem blankLines_kept (h : Spaced source edits) (hinline : Inline source edits) :
    ∃ marks, traced? source edits = some marks ∧ spliced? source edits = some (bytesOf marks) ∧
      (∀ u v, BlankLine source marks u v → ∃ p, BlankLine source (marked source) p (p + (v - u)) ∧
        ∀ i ≤ v - u, marks[u + i]? = (marked source)[p + i]?) ∧
      ∀ l t, Emptied source edits l t → ∀ m ∈ marks, ∀ i, l ≤ i → i ≤ t → m.origin ≠ .source i := by
  have hwhole : (marked source).take source.length ++ [] = marked source := by
    rw [List.append_nil, List.take_of_length_le (Nat.le_of_eq (length_marked source))]
  have hstart : Beside Returns ((marked source).take source.length ++ []) ∧
      BlankFrom source ((marked source).take source.length ++ []) (marked source) := by
    rw [hwhole]
    exact ⟨returns_marked hinline.returns, .refl source _⟩
  obtain ⟨c, tail, htrace, -, -, hfrom⟩ := h.exists_traced hstart (splicesKeep_blankFrom hinline)
  refine ⟨_, htrace, spliced?_of_traced? htrace, hfrom, fun l t hemptied => ?_⟩
  have hlt : t < source.length := (List.getElem?_eq_some_iff.1 hemptied.lineFeed).1
  obtain ⟨c', tail', htrace', hover, hclearing⟩ := h.exists_traced (.ahead hlt)
    (splicesKeep_clearing h hinline hemptied)
  rw [htrace, Option.some.injEq] at htrace'
  rw [htrace']
  exact hclearing.clearOf hover hinline hemptied

end

/-- Behind a byte order mark two comments with nothing else on their line, then a comment at the end
of a line, and a blank line. -/
def commentedFile : Bytes := byteOrderMark ++ encode "/* a */ // b\r\nf // c\r\n\r\ng\r\n"

/-- The line of the two comments goes, and the blank line is the one of the source. -/
theorem blankLines_kept_commentedFile :
    let edits : List Edit := [⟨3, 10, ""⟩, ⟨11, 15, ""⟩, ⟨19, 23, ""⟩]
    Spaced commentedFile edits ∧ Inline commentedFile edits ∧ Emptied commentedFile edits 3 16 ∧
      spliced? commentedFile edits = some (byteOrderMark ++ encode "f\r\n\r\ng\r\n") ∧
      ∃ marks, traced? commentedFile edits = some marks ∧ BlankLine commentedFile marks 6 7 ∧
        (∃ p, BlankLine commentedFile (marked commentedFile) p (p + 1) ∧
          ∀ i ≤ 1, marks[6 + i]? = (marked commentedFile)[p + i]?) ∧
        ∀ m ∈ marks, ∀ i, 3 ≤ i → i ≤ 16 → m.origin ≠ .source i := by
  have hspaced : Spaced commentedFile [⟨3, 10, ""⟩, ⟨11, 15, ""⟩, ⟨19, 23, ""⟩] := by
    decide +kernel
  have hreturns : ∀ i < commentedFile.length, commentedFile[i]? = some 0x0D →
      commentedFile[i + 1]? = some 0x0A := by decide +kernel
  have hstart : ∀ e ∈ ([⟨3, 10, ""⟩, ⟨11, 15, ""⟩, ⟨19, 23, ""⟩] : List Edit),
      ∀ b ∈ commentedFile[e.start]?, isLineBreak b = false := by decide +kernel
  have hstop : ∀ e ∈ ([⟨3, 10, ""⟩, ⟨11, 15, ""⟩, ⟨19, 23, ""⟩] : List Edit),
      ∀ b ∈ commentedFile[e.stop - 1]?, isLineBreak b = false := by decide +kernel
  have hinline : Inline commentedFile [⟨3, 10, ""⟩, ⟨11, 15, ""⟩, ⟨19, 23, ""⟩] :=
    ⟨fun i hcr => hreturns i (List.getElem?_eq_some_iff.1 hcr).1 hcr, hstart, hstop,
      by decide +kernel, by decide⟩
  have hblank : ∀ i < 16, 3 ≤ i → uncovered [⟨3, 10, ""⟩, ⟨11, 15, ""⟩, ⟨19, 23, ""⟩] i = true →
      ∃ b ∈ commentedFile[i]?, isSpacing b = true ∧ b ≠ 0x0A := by decide +kernel
  have hemptied : Emptied commentedFile [⟨3, 10, ""⟩, ⟨11, 15, ""⟩, ⟨19, 23, ""⟩] 3 16 :=
    ⟨by decide +kernel, by decide +kernel, by decide, fun i hl ht => hblank i ht hl, by decide,
      by decide⟩
  have hmarks : traced? commentedFile [⟨3, 10, ""⟩, ⟨11, 15, ""⟩, ⟨19, 23, ""⟩] =
      some ((marked commentedFile).take 3 ++ [⟨0x66, .source 17⟩, ⟨0x0D, .source 23⟩,
        ⟨0x0A, .source 24⟩, ⟨0x0D, .source 25⟩, ⟨0x0A, .source 26⟩, ⟨0x67, .source 27⟩,
        ⟨0x0D, .source 28⟩, ⟨0x0A, .source 29⟩]) := by
    rw [traced?_eq (.refl _) (by decide)]
    decide +kernel
  obtain ⟨marks, htrace, hout, hkept, hgone⟩ := blankLines_kept hspaced hinline
  rw [hmarks, Option.some.injEq] at htrace
  have hline : BlankLine commentedFile marks 6 7 := by
    rw [← htrace]
    refine ⟨by decide, .inr (.inl (by decide +kernel)), fun i hu hv => ?_, by decide +kernel⟩
    obtain rfl : i = 6 := by omega
    exact ⟨0x0D, by decide +kernel, rfl, by decide⟩
  refine ⟨hspaced, hinline, hemptied, ?_, marks, htrace ▸ hmarks, hline, hkept 6 7 hline,
    hgone 3 16 hemptied⟩
  rw [hout, ← htrace]
  decide +kernel

end ScriptScrub.Edit
