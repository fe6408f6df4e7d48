import ScriptScrub.Proofs.Edit.LineEnding

/-!
# Blank lines in the output

Edits that begin and end inside lines and put in no blank line (`Inline`) leave no new blank line: a
splice puts bytes that are no white space on both sides of each place where it brings two bytes
together, or the line there begins and ends where one did before it (`blankFrom_removal`). So every
blank line of the output is one of the source.
-/

namespace ScriptScrub.Edit

open Text (encode)

/-! ## Lines -/

/-- A line of the marked text starts at `u`: the text starts there, or a line feed stands before it,
or the byte order mark that opens the source. -/
def StartsAt (source : Bytes) (marks : List Mark) (u : Nat) : Prop :=
  u = 0 ∨ (bytesOf marks)[u - 1]? = some 0x0A ∨
    byteOrderMark <+: source ∧ u = byteOrderMark.length ∧ marks.take u = (marked source).take u

/-- From `u` on the marked text has a line that a line feed at `v` ends, with only spaces, tabs and
carriage returns before it. -/
structure BlankLine (source : Bytes) (marks : List Mark) (u v : Nat) : Prop where
  le : u ≤ v
  starts : StartsAt source marks u
  blank : ∀ i, u ≤ i → i < v → ∃ b, (bytesOf marks)[i]? = some b ∧ isSpacing b = true ∧ b ≠ 0x0A
  ends : (bytesOf marks)[v]? = some 0x0A

/-- Every carriage return of the source comes with its line feed, and the edits begin and end inside
lines and put in no line break, and not only blanks. -/
structure Inline (source : Bytes) (edits : List Edit) : Prop where
  returns : ∀ i : Nat, source[i]? = some 0x0D → source[i + 1]? = some 0x0A
  start : ∀ e ∈ edits, ∀ b, source[e.start]? = some b → isLineBreak b = false
  stop : ∀ e ∈ edits, ∀ b, source[e.stop - 1]? = some b → isLineBreak b = false
  line : ∀ e ∈ edits, ∀ b ∈ encode e.replacement, isLineBreak b = false
  solid : ∀ e ∈ edits, e.isRemoval = false → ∃ b ∈ encode e.replacement, isBlank b = false

/-- Every blank line of one marked text is one of another, byte for byte. -/
def BlankFrom (source : Bytes) (marks marks' : List Mark) : Prop :=
  ∀ u v, BlankLine source marks u v → ∃ p, BlankLine source marks' p (p + (v - u)) ∧
    ∀ i ≤ v - u, marks[u + i]? = marks'[p + i]?

section
variable {source : Bytes} {marks marks' marks'' : List Mark} {u v p : Nat}

/-- A blank line is white space, its end included. -/
theorem BlankLine.isSpacing (h : BlankLine source marks u v) {i : Nat} {b : UInt8} (hu : u ≤ i)
    (hv : i ≤ v) (hb : (bytesOf marks)[i]? = some b) : isSpacing b = true := by
  rcases Nat.eq_or_lt_of_le hv with rfl | hlt
  · rw [h.ends, Option.some.injEq] at hb
    exact hb ▸ rfl
  · obtain ⟨b', hb', hspacing, -⟩ := h.blank i hu hlt
    rw [hb, Option.some.injEq] at hb'
    rwa [hb']

/-- A blank line has one line feed. -/
theorem BlankLine.eq_of_lineFeed (h : BlankLine source marks u v) {i : Nat} (hu : u ≤ i)
    (hv : i ≤ v) (hlf : (bytesOf marks)[i]? = some 0x0A) : i = v := by
  rcases Nat.eq_or_lt_of_le hv with rfl | hlt
  · rfl
  · obtain ⟨b, hb, -, hne⟩ := h.blank i hu hlt
    rw [hlf, Option.some.injEq] at hb
    exact absurd hb.symm hne

/-- The same bytes are a blank line wherever a line starts with them. -/
theorem BlankLine.shift (h : BlankLine source marks u v)
    (hsame : ∀ i ≤ v - u, marks[u + i]? = marks'[p + i]?) (hstart : StartsAt source marks' p) :
    BlankLine source marks' p (p + (v - u)) := by
  have hbytes : ∀ i ≤ v - u, (bytesOf marks')[p + i]? = (bytesOf marks)[u + i]? := fun i hi => by
    rw [bytesOf, bytesOf, List.getElem?_map, List.getElem?_map, hsame i hi]
  have hle := h.le
  refine ⟨Nat.le_add_right _ _, hstart, fun i hp hi => ?_, ?_⟩
  · obtain ⟨b, hb, hspacing⟩ := h.blank (u + (i - p)) (by omega) (by omega)
    rw [← hbytes (i - p) (by omega), Nat.add_sub_cancel' hp] at hb
    exact ⟨b, hb, hspacing⟩
  · rw [hbytes _ (Nat.le_refl _), Nat.add_sub_cancel' hle]
    exact h.ends

/-- Blank lines are those of the same text. -/
theorem BlankFrom.refl (source : Bytes) (marks : List Mark) : BlankFrom source marks marks :=
  fun u v h => ⟨u, by rwa [Nat.add_sub_cancel' h.le], fun _ _ => rfl⟩

/-- Blank lines of a text in between. -/
theorem BlankFrom.trans (h : BlankFrom source marks marks')
    (h' : BlankFrom source marks' marks'') : BlankFrom source marks marks'' := by
  intro u v hline
  obtain ⟨p, hline, hsame⟩ := h u v hline
  obtain ⟨q, hline, hsame'⟩ := h' p _ hline
  rw [Nat.add_sub_cancel_left] at hline hsame'
  exact ⟨q, hline, fun i hi => (hsame i hi).trans (hsame' i hi)⟩

end

/-! ## Lines of a spliced text -/

/-- The source up to `left`, bytes that an edit puts in, and a text from `stop` on. -/
def joined (source : Bytes) (left : Nat) (e : Edit) (put : Bytes) (old : List Mark) (stop : Nat) :
    List Mark :=
  (marked source).take left ++ (putMarks e put ++ old.drop stop)

section
variable {source put : Bytes} {edits : List Edit} {e : Edit} {c left stop : Nat}
  {tail old : List Mark}

/-- Before what is put in stands the source. -/
theorem take_joined (hleft : left ≤ source.length) {i : Nat} (hi : i ≤ left) :
    (joined source left e put old stop).take i = (marked source).take i :=
  take_marks hleft hi _

/-- Behind what is put in stands the old text. -/
theorem getElem?_joined (hleft : left ≤ source.length) (i : Nat) :
    (joined source left e put old stop)[left + put.length + i]? = old[stop + i]? := by
  have hlen : ((marked source).take left).length = left :=
    List.length_take_of_le (by rwa [length_marked])
  have hput : (putMarks e put).length = put.length := List.length_map _
  rw [joined, List.getElem?_append_right (by omega), List.getElem?_append_right (by omega),
    List.getElem?_drop]
  congr 1
  omega

/-- The bytes of the joined texts. -/
theorem bytesOf_joined : bytesOf (joined source left e put old stop) =
    source.take left ++ (put ++ (bytesOf old).drop stop) := by
  rw [joined, bytesOf_buffer, bytesOf_append, bytesOf_putMarks, bytesOf, bytesOf, List.map_drop]

/-- A byte before what is put in. -/
theorem getElem?_joined_left (hleft : left ≤ source.length) {i : Nat} (hi : i < left) :
    (bytesOf (joined source left e put old stop))[i]? = source[i]? := by
  have hlen : (source.take left).length = left := List.length_take_of_le hleft
  rw [bytesOf_joined, List.getElem?_append_left (by omega), List.getElem?_take_of_lt hi]

/-- A byte that is put in. -/
theorem getElem?_joined_put (hleft : left ≤ source.length) {i : Nat} (hi : i < put.length) :
    (bytesOf (joined source left e put old stop))[left + i]? = put[i]? := by
  have hlen : (source.take left).length = left := List.length_take_of_le hleft
  rw [bytesOf_joined, List.getElem?_append_right (by omega), hlen, Nat.add_sub_cancel_left,
    List.getElem?_append_left hi]

/-- A byte behind what is put in. -/
theorem getElem?_joined_right (hleft : left ≤ source.length) (i : Nat) :
    (bytesOf (joined source left e put old stop))[left + put.length + i]? =
      (bytesOf old)[stop + i]? := by
  rw [bytesOf, bytesOf, List.getElem?_map, List.getElem?_map, getElem?_joined hleft]

/-- A byte behind nothing that is put in. -/
theorem getElem?_joined_nil (hleft : left ≤ source.length) (i : Nat) :
    (bytesOf (joined source left e [] old stop))[left + i]? = (bytesOf old)[stop + i]? :=
  getElem?_joined_right hleft i

/-- As far as the joined text is the source with its marks, nothing has been put in. -/
theorem Turn.le_of_take_eq (h : Turn source edits e c tail) (hleft : left ≤ e.start)
    (hstop : e.stop ≤ stop) {u : Nat} (hu : u ≤ source.length)
    (htake : (joined source left e put ((marked source).take c ++ tail) stop).take u =
      (marked source).take u) : u ≤ left := by
  by_contra hlt
  have hlt := Nat.lt_of_not_le hlt
  have hproper := h.proper
  have hlen : ((marked source).take left).length = left :=
    List.length_take_of_le (by rw [length_marked]; omega)
  obtain ⟨m, hm⟩ : ∃ m, (marked source)[left]? = some m :=
    ⟨_, List.getElem?_eq_getElem (by rw [length_marked]; omega)⟩
  have horigin := (getElem?_marked.1 hm).2
  rw [← List.getElem?_take_of_lt hlt, ← htake, List.getElem?_take_of_lt hlt, joined,
    List.getElem?_append_right (by omega)] at hm
  rcases List.mem_append.1 (List.mem_of_getElem? hm) with hm | hm
  · rw [origin_of_mem_putMarks hm] at horigin
    cases horigin
  · have := h.stop_le_of_mem hstop hm horigin
    omega

/-- What starts a line of the joined text behind what is put in is a line feed. -/
theorem Turn.lineFeed_of_startsAt (h : Turn source edits e c tail) (hleft : left ≤ e.start)
    (hstop : e.stop ≤ stop) {u : Nat} (hu : left < u)
    (hstart : StartsAt source (joined source left e put ((marked source).take c ++ tail) stop) u) :
    (bytesOf (joined source left e put ((marked source).take c ++ tail) stop))[u - 1]? =
      some 0x0A := by
  rcases hstart with rfl | hlf | ⟨hbom, hlen, htake⟩
  · exact absurd hu (Nat.not_lt_zero _)
  · exact hlf
  · have := h.le_of_take_eq hleft hstop (hlen ▸ hbom.length_le) htake
    omega

/-- **A splice makes no blank line** if it makes none where it brings two bytes together, but for
one that follows a line feed both before and after. -/
theorem Turn.blankFrom (h : Turn source edits e c tail) (hleft : left ≤ e.start)
    (hstop : e.stop ≤ stop)
    (hmeet : ∀ u v, u ≤ left + put.length → left ≤ v →
      BlankLine source (joined source left e put ((marked source).take c ++ tail) stop) u v →
      u = left ∧ put = [] ∧ (source.take c ++ bytesOf tail)[stop - 1]? = some 0x0A) :
    BlankFrom source (joined source left e put ((marked source).take c ++ tail) stop)
      ((marked source).take c ++ tail) := by
  intro u v hline
  have hle := hline.le
  have hproper := h.proper
  have hin : left ≤ source.length := Nat.le_trans hleft (Nat.le_trans h.start_le h.inside)
  have hbefore : ∀ i ≤ left,
      (joined source left e put ((marked source).take c ++ tail) stop).take i =
        ((marked source).take c ++ tail).take i := fun i hi => by
    rw [take_joined hin hi, take_marks h.inside (Nat.le_trans hi (Nat.le_trans hleft h.start_le))]
  rcases Nat.lt_or_ge v left with hv | hv
  · -- The line ends before what is put in.
    have hsame : ∀ i < left,
        (joined source left e put ((marked source).take c ++ tail) stop)[i]? =
          ((marked source).take c ++ tail)[i]? := fun i hi => by
      rw [← List.getElem?_take_of_lt (Nat.lt_succ_self i), hbefore _ hi,
        List.getElem?_take_of_lt (Nat.lt_succ_self i)]
    have hstart : StartsAt source ((marked source).take c ++ tail) u := by
      refine hline.starts.imp_right (.imp (fun hlf => ?_) fun ⟨hbom, hu, htake⟩ => ?_)
      · rwa [bytesOf, List.getElem?_map, ← hsame (u - 1) (by omega), ← List.getElem?_map]
      · exact ⟨hbom, hu, by rw [← htake, hbefore u (by omega)]⟩
    exact ⟨u, hline.shift (fun i hi => hsame _ (by omega)) hstart,
      fun i hi => hsame _ (by omega)⟩
  rcases Nat.lt_or_ge (left + put.length) u with hu | hu
  · -- The line starts behind a line feed that stays.
    obtain ⟨k, rfl⟩ := Nat.exists_eq_add_of_lt hu
    have hsame : ∀ i : Nat,
        (joined source left e put ((marked source).take c ++ tail) stop)[left + put.length + k + 1 +
          i]? = ((marked source).take c ++ tail)[stop + k + 1 + i]? := fun i => by
      have hold : stop + k + 1 + i = stop + (k + 1 + i) := by omega
      have hnew : left + put.length + k + 1 + i = left + put.length + (k + 1 + i) := by omega
      rw [hold, hnew]
      exact getElem?_joined hin _
    have hlf := h.lineFeed_of_startsAt hleft hstop (by omega) hline.starts
    rw [Nat.add_sub_cancel, getElem?_joined_right hin] at hlf
    exact ⟨_, hline.shift (fun i _ => hsame i) (.inr (.inl hlf)), fun i _ => hsame i⟩
  · obtain ⟨rfl, rfl, hlf⟩ := hmeet u v hu hv hline
    have hsame : ∀ i : Nat,
        (joined source u e [] ((marked source).take c ++ tail) stop)[u + i]? =
          ((marked source).take c ++ tail)[stop + i]? := fun i => getElem?_joined hin i
    refine ⟨stop, hline.shift (fun i _ => hsame i) (.inr (.inl ?_)), fun i _ => hsame i⟩
    rwa [bytesOf_buffer]

/-! ## What stands beside a removal -/

/-- Where no line starts with the blanks before an edit, other text stands before them. -/
theorem Inline.exists_before (h : Inline source edits) (he : e ∈ edits)
    (hin : e.start < source.length) (hstart : startsLine source (leftOf source e.start) = false) :
    0 < leftOf source e.start ∧
      ∃ b, source[leftOf source e.start - 1]? = some b ∧ isSpacing b = false := by
  have hle := leftOf_le source e.start
  have hnot := mt startsLine_iff.2 (Bool.eq_false_iff.1 hstart)
  obtain ⟨hne, hnot⟩ := not_or.1 hnot
  obtain ⟨hlf, -⟩ := not_or.1 hnot
  have hpos := Nat.pos_of_ne_zero hne
  obtain ⟨b, hb⟩ : ∃ b, source[leftOf source e.start - 1]? = some b :=
    ⟨_, List.getElem?_eq_getElem (by omega)⟩
  refine ⟨hpos, b, hb, isSpacing_eq_false (not_isBlank_leftOf (Nat.le_of_lt hin) hpos hb) ?_⟩
  refine Bool.eq_false_iff.2 fun hbreak => ?_
  rcases isLineBreak_iff.1 hbreak with rfl | rfl
  · -- The line feed that follows a carriage return would be a blank, or start the edit.
    have hnext := h.returns _ hb
    rw [Nat.sub_add_cancel hpos] at hnext
    rcases Nat.eq_or_lt_of_le hle with heq | hlt
    · rw [heq] at hnext
      exact absurd (h.start e he _ hnext) (by decide)
    · have hmem : 0x0A ∈ slice source (leftOf source e.start) e.start :=
        mem_slice_iff.2 ⟨_, Nat.le_refl _, hlt, hnext⟩
      exact absurd (isBlank_of_mem_slice_leftOf (Nat.le_of_lt hin) hmem) (by decide)
  · exact hlf hb

/-- Where no line ends with the blanks behind a position, other text stands behind them. -/
theorem exists_behind {buffer : Bytes} {i : Nat}
    (hend : endsLine buffer (rightOf buffer i) = false) :
    ∃ b, buffer[rightOf buffer i]? = some b ∧ isSpacing b = false := by
  cases hb : buffer[rightOf buffer i]? with
  | none =>
      rw [endsLine, hb] at hend
      cases hend
  | some b =>
      rw [endsLine, hb] at hend
      exact ⟨b, rfl, isSpacing_eq_false (not_isBlank_rightOf hb) hend⟩

/-- The terminator of a line goes up to its line feed, unless the text ends there. -/
theorem afterTerminator_of_endsLine {buffer : Bytes} {right : Nat}
    (hend : endsLine buffer right = true)
    (hreturns : ∀ i : Nat, buffer[i]? = some 0x0D → buffer[i + 1]? = some 0x0A) :
    buffer.length ≤ afterTerminator buffer right ∨
      buffer[afterTerminator buffer right - 1]? = some 0x0A := by
  refine (afterTerminator_lineFeed right hreturns).imp_left fun heq => ?_
  rw [heq]
  by_contra hlt
  obtain ⟨b, hb⟩ : ∃ b, buffer[right]? = some b :=
    ⟨_, List.getElem?_eq_getElem (Nat.lt_of_not_le hlt)⟩
  rw [endsLine, hb] at hend
  dsimp only at hend
  unfold afterTerminator at heq
  rcases isLineBreak_iff.1 hend with rfl | rfl
  · rw [if_pos hb] at heq
    dsimp only at heq
    split at heq <;> omega
  · have hcr : buffer[right]? ≠ some 0x0D := by
      rw [hb]
      decide
    rw [if_neg hcr] at heq
    dsimp only at heq
    rw [if_pos hb] at heq
    omega

/-! ## Splices and blank lines -/

/-- Behind a byte that is no white space no blank line starts, unless a line feed is put in before
other text. -/
theorem Turn.not_blankLine (h : Turn source edits e c tail) (hleft : left ≤ e.start)
    (hstop : e.stop ≤ stop) (hpos : 0 < left) (hstart : startsLine source left = false)
    {b : UInt8} (hb : source[left - 1]? = some b) (hsolid : isSpacing b = false)
    (hput : 0x0A ∈ put → put = [0x0A] ∧
      ∃ d, (source.take c ++ bytesOf tail)[stop]? = some d ∧ isSpacing d = false)
    {u v : Nat} (hu : u ≤ left + put.length) (hv : left ≤ v) :
    ¬ BlankLine source (joined source left e put ((marked source).take c ++ tail) stop) u v := by
  intro hline
  have hle := hline.le
  have hin : left ≤ source.length := Nat.le_trans hleft (Nat.le_trans h.start_le h.inside)
  have hlast : (bytesOf (joined source left e put ((marked source).take c ++ tail) stop))[left - 1]?
      = some b := by
    rw [getElem?_joined_left hin (by omega), hb]
  have hge : left ≤ u := by
    by_contra hlt
    rw [hline.isSpacing (by omega) (by omega) hlast] at hsolid
    cases hsolid
  rcases Nat.eq_or_lt_of_le hge with rfl | hlt
  · rcases hline.starts with rfl | hlf | ⟨hbom, hlen, -⟩
    · exact absurd hpos (Nat.lt_irrefl 0)
    · rw [hlast, Option.some.injEq] at hlf
      rw [hlf] at hsolid
      cases hsolid
    · rw [startsLine_iff.2 (.inr (.inr ⟨hbom, hlen⟩))] at hstart
      cases hstart
  · obtain ⟨k, rfl⟩ := Nat.exists_eq_add_of_lt hlt
    have hlf := h.lineFeed_of_startsAt hleft hstop hlt hline.starts
    rw [Nat.add_sub_cancel, getElem?_joined_put hin (by omega)] at hlf
    obtain ⟨rfl, d, hd, hsolid'⟩ := hput (List.mem_of_getElem? hlf)
    rw [List.length_singleton] at hu
    obtain rfl : k = 0 := by omega
    have hnext : (bytesOf (joined source left e [0x0A] ((marked source).take c ++ tail)
        stop))[left + 1]? = some d := by
      rw [← hd, ← bytesOf_buffer]
      exact getElem?_joined_right hin 0
    rw [hline.isSpacing (Nat.le_refl _) hle hnext] at hsolid'
    cases hsolid'

/-- A blank line does not reach over the start of another. -/
theorem BlankLine.le_of_startsLine {u v : Nat} (hin : left ≤ source.length)
    (h : BlankLine source (joined source left e put old stop) u v)
    (hstart : startsLine source left = true) (hv : left ≤ v) : left ≤ u := by
  by_contra hlt
  have hbyte : ∀ b, source[left - 1]? = some b →
      (bytesOf (joined source left e put old stop))[left - 1]? = some b := fun b hb => by
    rw [getElem?_joined_left hin (by omega), hb]
  rcases startsLine_iff.1 hstart with rfl | hlf | ⟨⟨rest, rfl⟩, rfl⟩
  · exact hlt (Nat.zero_le _)
  · have := h.eq_of_lineFeed (by omega) (by omega) (hbyte _ hlf)
    omega
  · exact absurd (h.isSpacing (Nat.le_sub_one_of_lt (Nat.lt_of_not_le hlt))
      (Nat.le_trans (Nat.sub_le _ _) hv) (hbyte 0xBF rfl)) (by decide)

/-- **A removal makes no blank line.** -/
theorem Turn.blankFrom_removal (h : Turn source edits e c tail) (hinline : Inline source edits)
    (hreturns : Beside Returns ((marked source).take c ++ tail)) {s : Span}
    (htidies : s.Tidies (source.take c ++ bytesOf tail) e.start e.stop) :
    BlankFrom source (joined source s.start e s.replacement ((marked source).take c ++ tail) s.stop)
      ((marked source).take c ++ tail) := by
  have hremoves := htidies.removes h.stop_le_length
  have hin : s.start ≤ source.length :=
    Nat.le_trans hremoves.start_le (Nat.le_trans h.start_le h.inside)
  have hlt : e.start < source.length :=
    Nat.lt_of_lt_of_le h.proper (Nat.le_trans h.stop_le h.inside)
  have hlf := hreturns.lineFeed_of_return
  rw [bytesOf_buffer] at hlf
  -- Other text before the range keeps the line from being blank.
  have hsolid : ∀ {put : Bytes} {stop u v : Nat}, e.stop ≤ stop →
      startsLine (source.take c ++ bytesOf tail) (leftOf (source.take c ++ bytesOf tail) e.start) =
        false →
      (0x0A ∈ put → put = [0x0A] ∧
        ∃ d, (source.take c ++ bytesOf tail)[stop]? = some d ∧ isSpacing d = false) →
      u ≤ leftOf (source.take c ++ bytesOf tail) e.start + put.length →
      leftOf (source.take c ++ bytesOf tail) e.start ≤ v →
      ¬ BlankLine source (joined source (leftOf (source.take c ++ bytesOf tail) e.start) e put
        ((marked source).take c ++ tail) stop) u v := by
    intro put stop u v hstop hstart hput hu hv
    rw [h.leftOf_eq] at hstart hu hv ⊢
    rw [h.startsLine_eq] at hstart
    obtain ⟨hpos, b, hb, hsolid⟩ := hinline.exists_before h.mem hlt hstart
    exact h.not_blankLine (leftOf_le _ _) hstop hpos hstart hb hsolid hput hu hv
  have hright := le_rightOf (source.take c ++ bytesOf tail) e.stop
  refine h.blankFrom hremoves.start_le hremoves.le_stop fun u v hu hv hline => ?_
  cases htidies with
  | line hstart hend =>
      dsimp only at hu hv hline hin ⊢
      rw [h.leftOf_eq] at hu hv hline hin hstart ⊢
      rw [h.startsLine_eq] at hstart
      obtain rfl : u = leftOf source e.start :=
        Nat.le_antisymm hu (hline.le_of_startsLine hin hstart hv)
      refine ⟨rfl, rfl, (afterTerminator_of_endsLine hend hlf).resolve_left fun hle => ?_⟩
      obtain ⟨k, rfl⟩ := Nat.exists_eq_add_of_le hv
      have hends := hline.ends
      rw [getElem?_joined_nil hin, bytesOf_buffer, List.getElem?_eq_none (by omega)] at hends
      cases hends
  | leading hstart hend =>
      obtain ⟨b, hb, hsolid⟩ := exists_behind hend
      have hnext : (bytesOf (joined source e.start e [] ((marked source).take c ++ tail)
          (rightOf (source.take c ++ bytesOf tail) e.stop)))[e.start]? = some b := by
        rw [← hb, ← bytesOf_buffer]
        exact getElem?_joined_nil hin 0
      rw [hline.isSpacing hu hv hnext] at hsolid
      cases hsolid
  | broken hstart hend =>
      exact absurd hline (hsolid hright hstart (fun _ => ⟨rfl, exists_behind hend⟩) hu hv)
  | trailing hstart | closed hstart =>
      exact absurd hline (hsolid hright hstart (fun hlf => absurd hlf List.not_mem_nil) hu hv)
  | spaced hstart =>
      exact absurd hline (hsolid hright hstart
        (fun hlf => absurd (List.mem_singleton.1 hlf) (by decide)) hu hv)

/-- **A replacement makes no blank line.** -/
theorem Turn.blankFrom_replacement (h : Turn source edits e c tail) (hinline : Inline source edits)
    (hrem : e.isRemoval = false) :
    BlankFrom source
      (joined source e.start e (encode e.replacement) ((marked source).take c ++ tail) e.stop)
      ((marked source).take c ++ tail) := by
  have hin : e.start ≤ source.length := Nat.le_trans h.start_le h.inside
  refine h.blankFrom (Nat.le_refl _) (Nat.le_refl _) fun u v hu hv hline => ?_
  obtain ⟨b, hmem, hblank⟩ := hinline.solid e h.mem hrem
  have hbreak := hinline.line e h.mem b hmem
  obtain ⟨k, hk⟩ := List.mem_iff_getElem?.1 hmem
  have hkl := (List.getElem?_eq_some_iff.1 hk).1
  have hput : ∀ i < (encode e.replacement).length, (bytesOf (joined source e.start e
      (encode e.replacement) ((marked source).take c ++ tail) e.stop))[e.start + i]? ≠
        some 0x0A := by
    intro i hi hlf
    rw [getElem?_joined_put hin hi] at hlf
    exact absurd (hinline.line e h.mem _ (List.mem_of_getElem? hlf)) (by decide)
  -- The line feed at the end, and the one before the line, are not put in.
  have hend : e.start + (encode e.replacement).length ≤ v := by
    by_contra hlt
    obtain ⟨i, rfl⟩ := Nat.exists_eq_add_of_le hv
    exact hput i (by omega) hline.ends
  have hstart : u ≤ e.start := by
    by_contra hlt
    obtain ⟨i, rfl⟩ := Nat.exists_eq_add_of_lt (Nat.lt_of_not_le hlt)
    have hlf := h.lineFeed_of_startsAt (Nat.le_refl _) (Nat.le_refl _) (by omega) hline.starts
    exact hput i (by omega) hlf
  have hbyte : (bytesOf (joined source e.start e (encode e.replacement)
      ((marked source).take c ++ tail) e.stop))[e.start + k]? = some b := by
    rw [getElem?_joined_put hin hkl, hk]
  have hspacing := hline.isSpacing (by omega) (by omega) hbyte
  rw [isSpacing_eq_false hblank hbreak] at hspacing
  cases hspacing

/-- **No splice makes a blank line.** -/
theorem splicesKeep_blankFrom (hinline : Inline source edits) :
    SplicesKeep source edits fun c tail => Beside Returns ((marked source).take c ++ tail) ∧
      BlankFrom source ((marked source).take c ++ tail) (marked source) := by
  have hsplit : ∀ d ∈ edits, ¬ SplitsPair source d.start := by
    rintro d hd ⟨-, -, hlf⟩
    exact absurd (hinline.start d hd _ hlf) (by decide)
  have hkeep := splicesKeep_returns hinline.returns hsplit hinline.line
  constructor
  case removal =>
    rintro e c tail s hturn hrem htidies ⟨hreturns, hfrom⟩
    exact ⟨hkeep.removal hturn hrem htidies hreturns,
      (hturn.blankFrom_removal hinline hreturns htidies).trans hfrom⟩
  case replacement =>
    rintro e c tail hturn hrem ⟨hreturns, hfrom⟩
    exact ⟨hkeep.replacement hturn hrem hreturns,
      (hturn.blankFrom_replacement hinline hrem).trans hfrom⟩

end

end ScriptScrub.Edit
