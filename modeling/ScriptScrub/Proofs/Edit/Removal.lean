import Mathlib.Data.List.TakeWhile
import ScriptScrub.Edit.Splice

/-!
# One splice

What one removal does to a buffer: `removalSpan` never fails inside the buffer, and what it answers
is one of six spans (`removalSpan_eq_some`). Each takes along white space only, on the left only
the blanks that end at `leftOf`, and puts nothing but white space in place (`Span.Tidies.removes`,
`Span.Removes.splice`). Where it fails it would have looked
outside the buffer: `removalReads` lists the positions it looks at, and they all lie inside exactly
if there is a span (`removalSpan_isSome_iff`).
-/

namespace ScriptScrub.Edit

/-- White space that a removal may take along or leave behind. -/
def isSpacing (b : UInt8) : Bool := isBlank b || isLineBreak b

/-- The bytes from `lo` up to `hi`. -/
def slice (source : Bytes) (lo hi : Nat) : Bytes := (source.take hi).drop lo

/-! ## White space -/

/-- The two line breaks. -/
theorem isLineBreak_iff {b : UInt8} : isLineBreak b = true ↔ b = 0x0D ∨ b = 0x0A := by
  rw [isLineBreak, Bool.or_eq_true, beq_iff_eq, beq_iff_eq]

/-- A line break is no blank. -/
theorem isBlank_of_isLineBreak {b : UInt8} (h : isLineBreak b = true) : isBlank b = false := by
  rcases isLineBreak_iff.1 h with rfl | rfl <;> rfl

/-- White space that is no line feed is blank or a carriage return. -/
theorem isBlank_or_return_of_isSpacing {b : UInt8} (h : isSpacing b = true) (hne : b ≠ 0x0A) :
    isBlank b = true ∨ b = 0x0D := by
  rw [isSpacing, Bool.or_eq_true, isLineBreak_iff] at h
  exact h.imp_right fun hbreak => hbreak.resolve_right hne

/-- A byte that is no blank and no line break is no white space. -/
theorem isSpacing_eq_false {b : UInt8} (h : isBlank b = false) (h' : isLineBreak b = false) :
    isSpacing b = false := by
  rw [isSpacing, h, h', Bool.or_false]

/-! ## Slices -/

/-- Two adjacent slices are one. -/
theorem slice_append (source : Bytes) {lo mid hi : Nat} (h₁ : lo ≤ mid) (h₂ : mid ≤ hi) :
    slice source lo mid ++ slice source mid hi = slice source lo hi := by
  unfold slice
  rw [← List.take_append_drop (mid - lo) ((source.take hi).drop lo), List.drop_drop,
    ← List.drop_take, List.take_take]
  congr 3 <;> omega

/-- An empty slice. -/
@[simp]
theorem slice_self (source : Bytes) (i : Nat) : slice source i i = [] := by
  simp [slice]

/-- A slice and what follows it. -/
theorem slice_append_drop {source : Bytes} {lo hi : Nat} (h : lo ≤ hi) :
    slice source lo hi ++ source.drop hi = source.drop lo := by
  rw [slice, List.drop_take, ← Nat.add_sub_cancel' h, ← List.drop_drop, Nat.add_sub_cancel_left,
    List.take_append_drop]

/-- A byte of a slice stands at a position of the slice. -/
theorem mem_slice_iff {source : Bytes} {lo hi : Nat} {b : UInt8} :
    b ∈ slice source lo hi ↔ ∃ i, lo ≤ i ∧ i < hi ∧ source[i]? = some b := by
  rw [slice, List.mem_iff_getElem?]
  constructor
  · rintro ⟨i, hi⟩
    rw [List.getElem?_drop, List.getElem?_take] at hi
    split at hi
    · exact ⟨lo + i, by omega, by omega, hi⟩
    · cases hi
  · rintro ⟨i, hlo, hhi, hb⟩
    refine ⟨i - lo, ?_⟩
    rw [List.getElem?_drop, List.getElem?_take, Nat.add_sub_cancel' hlo, if_pos hhi, hb]

/-! ## Widening -/

section
variable {buffer : Bytes}

/-- Widening to the left does not move the start to the right. -/
theorem leftOf_le (buffer : Bytes) (start : Nat) : leftOf buffer start ≤ start := Nat.sub_le _ _

/-- What stands before the widened start goes up to the last byte that is no blank. -/
theorem take_leftOf_eq {start : Nat} (h : start ≤ buffer.length) :
    buffer.take (leftOf buffer start) =
      ((buffer.take start).reverse.dropWhile isBlank).reverse := by
  have hsplit : buffer.take start = ((buffer.take start).reverse.dropWhile isBlank).reverse ++
      ((buffer.take start).reverse.takeWhile isBlank).reverse := by
    rw [← List.reverse_append, List.takeWhile_append_dropWhile, List.reverse_reverse]
  have hlen : ((buffer.take start).reverse.dropWhile isBlank).reverse.length =
      leftOf buffer start := by
    have := congrArg List.length hsplit
    simp only [List.length_append, List.length_reverse, List.length_take] at this ⊢
    rw [leftOf]
    omega
  have htake := congrArg (List.take (leftOf buffer start)) hsplit
  rwa [List.take_take, Nat.min_eq_left (leftOf_le _ _), ← hlen, List.take_left, hlen] at htake

/-- What stands before the start is what stands before the widened start, and blanks. -/
theorem take_leftOf {start : Nat} (h : start ≤ buffer.length) :
    buffer.take start = buffer.take (leftOf buffer start) ++
      ((buffer.take start).reverse.takeWhile isBlank).reverse := by
  rw [take_leftOf_eq h, ← List.reverse_append, List.takeWhile_append_dropWhile,
    List.reverse_reverse]

/-- Before the widened start stands no blank. -/
theorem not_isBlank_leftOf {start : Nat} (h : start ≤ buffer.length) {b : UInt8}
    (hpos : 0 < leftOf buffer start) (hb : buffer[leftOf buffer start - 1]? = some b) :
    isBlank b = false := by
  have hlast := congrArg List.getLast? (take_leftOf_eq h)
  rw [List.getLast?_take, if_neg (Nat.ne_of_gt hpos), hb, Option.some_or,
    List.getLast?_reverse] at hlast
  have hnot := List.head?_dropWhile_not isBlank (buffer.take start).reverse
  rwa [← hlast] at hnot

/-- Widening to the left passes blanks only. -/
theorem isBlank_of_mem_slice_leftOf {start : Nat} (h : start ≤ buffer.length) {b : UInt8}
    (hb : b ∈ slice buffer (leftOf buffer start) start) : isBlank b = true := by
  have hlen : (buffer.take (leftOf buffer start)).length = leftOf buffer start := by
    rw [List.length_take]
    have := leftOf_le buffer start
    omega
  rw [slice, take_leftOf h, List.drop_append_of_le_length (by omega),
    List.drop_of_length_le (by omega), List.nil_append, List.mem_reverse] at hb
  exact List.mem_takeWhile_imp hb

/-- Widening to the left stops behind a byte that is no blank. -/
theorem lt_leftOf {i start : Nat} {b : UInt8} (hb : buffer[i]? = some b)
    (hblank : isBlank b = false) (hi : i < start) (hstart : start ≤ buffer.length) :
    i < leftOf buffer start := by
  by_contra hle
  have hmem : b ∈ slice buffer (leftOf buffer start) start :=
    mem_slice_iff.2 ⟨i, by omega, hi, hb⟩
  rw [isBlank_of_mem_slice_leftOf hstart hmem] at hblank
  cases hblank

/-- Widening to the left looks at what stands before the start only. -/
theorem leftOf_congr {buffer' : Bytes} {start : Nat} (h : buffer.take start = buffer'.take start) :
    leftOf buffer start = leftOf buffer' start := by
  rw [leftOf, leftOf, h]

/-- Widening to the right does not move the end to the left. -/
theorem le_rightOf (buffer : Bytes) (stop : Nat) : stop ≤ rightOf buffer stop :=
  Nat.le_add_right _ _

/-- Widening to the right stays in the buffer. -/
theorem rightOf_le {stop : Nat} (h : stop ≤ buffer.length) :
    rightOf buffer stop ≤ buffer.length := by
  have := (List.takeWhile_sublist isBlank (l := buffer.drop stop)).length_le
  rw [List.length_drop] at this
  rw [rightOf]
  omega

/-- Behind the widened end stands what follows the blanks. -/
theorem drop_rightOf (buffer : Bytes) (stop : Nat) :
    buffer.drop (rightOf buffer stop) = (buffer.drop stop).dropWhile isBlank := by
  have hsplit := List.takeWhile_append_dropWhile (p := isBlank) (l := buffer.drop stop)
  rw [rightOf, ← List.drop_drop]
  exact (congrArg (List.drop _) hsplit.symm).trans List.drop_left

/-- Behind the widened end stands no blank. -/
theorem not_isBlank_rightOf {stop : Nat} {b : UInt8} (hb : buffer[rightOf buffer stop]? = some b) :
    isBlank b = false := by
  have hnot := List.head?_dropWhile_not isBlank (buffer.drop stop)
  rwa [← drop_rightOf, List.head?_drop, hb] at hnot

/-- Widening to the right passes blanks only. -/
theorem isBlank_of_mem_slice_rightOf {stop : Nat} {b : UInt8}
    (hb : b ∈ slice buffer stop (rightOf buffer stop)) : isBlank b = true := by
  have htake : slice buffer stop (rightOf buffer stop) =
      (buffer.drop stop).takeWhile isBlank := by
    rw [slice, rightOf, List.drop_take, Nat.add_sub_cancel_left]
    exact (List.prefix_iff_eq_take.1 (List.takeWhile_prefix isBlank)).symm
  rw [htake] at hb
  exact List.mem_takeWhile_imp hb

/-- Whether a line starts at a position is told by what stands before it. -/
theorem startsLine_congr {buffer' : Bytes} {left : Nat} (h : buffer.take left = buffer'.take left) :
    startsLine buffer left = startsLine buffer' left := by
  cases left with
  | zero => rfl
  | succ i =>
      have hbyte : buffer[i]? = buffer'[i]? := by
        rw [← List.getElem?_take_of_lt (Nat.lt_succ_self i), h,
          List.getElem?_take_of_lt (Nat.lt_succ_self i)]
      rw [startsLine, startsLine, h, Nat.add_sub_cancel, hbyte]

/-- A line starts at the start of the text, behind a line feed, and behind a byte order mark that
opens the text. -/
theorem startsLine_iff {left : Nat} : startsLine buffer left = true ↔
    left = 0 ∨ buffer[left - 1]? = some 0x0A ∨
      byteOrderMark <+: buffer ∧ left = byteOrderMark.length := by
  have hmark : left = byteOrderMark.length ∧ buffer.take left = byteOrderMark ↔
      byteOrderMark <+: buffer ∧ left = byteOrderMark.length := by
    constructor
    · rintro ⟨rfl, h⟩
      exact ⟨List.prefix_iff_eq_take.2 h.symm, rfl⟩
    · rintro ⟨h, rfl⟩
      exact ⟨rfl, (List.prefix_iff_eq_take.1 h).symm⟩
  rw [startsLine, Bool.or_eq_true, Bool.or_eq_true, Bool.and_eq_true, beq_iff_eq, beq_iff_eq,
    beq_iff_eq, beq_iff_eq, hmark, or_assoc]

/-- Widening to the left does not go past the start of a line. -/
theorem le_leftOf_of_startsLine {left start : Nat} (h : startsLine buffer left = true)
    (hle : left ≤ start) (hstart : start ≤ buffer.length) : left ≤ leftOf buffer start := by
  have past : ∀ {b : UInt8}, 0 < left → buffer[left - 1]? = some b → isBlank b = false →
      left ≤ leftOf buffer start := fun hpos hb hblank => by
    have := lt_leftOf hb hblank (by omega) hstart
    omega
  rcases startsLine_iff.1 h with rfl | h | ⟨⟨rest, rfl⟩, rfl⟩
  · exact Nat.zero_le _
  · rcases Nat.eq_zero_or_pos left with rfl | hpos
    · exact Nat.zero_le _
    · exact past hpos h rfl
  · exact past (by decide) rfl rfl

/-- A line terminator is taken along to its end. -/
theorem afterTerminator_spec {right : Nat} (h : right ≤ buffer.length) :
    right ≤ afterTerminator buffer right ∧ afterTerminator buffer right ≤ buffer.length ∧
      ∀ b ∈ slice buffer right (afterTerminator buffer right), isLineBreak b = true := by
  have one : ∀ {i : Nat} {c : UInt8}, buffer[i]? = some c → isLineBreak c = true →
      i + 1 ≤ buffer.length ∧ ∀ b ∈ slice buffer i (i + 1), isLineBreak b = true := by
    intro i c hi hc
    refine ⟨(List.getElem?_eq_some_iff.1 hi).1, fun b hb => ?_⟩
    obtain ⟨j, hlo, hhi, hj⟩ := mem_slice_iff.1 hb
    obtain rfl : j = i := by omega
    rw [hi, Option.some.injEq] at hj
    rwa [← hj]
  unfold afterTerminator
  split
  · next hcr =>
    dsimp only
    split
    · next hlf =>
      obtain ⟨-, hfirst⟩ := one hcr rfl
      obtain ⟨hend, hsecond⟩ := one hlf rfl
      refine ⟨by omega, hend, fun b hb => ?_⟩
      rw [← slice_append buffer (Nat.le_succ right) (Nat.le_succ (right + 1)),
        List.mem_append] at hb
      exact hb.elim (hfirst b) (hsecond b)
    · exact ⟨Nat.le_succ _, one hcr rfl⟩
  · dsimp only
    split
    · next hlf => exact ⟨Nat.le_succ _, one hlf rfl⟩
    · exact ⟨Nat.le_refl _, h, by simp⟩

end

/-! ## Removals -/

/-- The spans by which a removal leaves tidy text. -/
inductive Span.Tidies (buffer : Bytes) (start stop : Nat) : Span → Prop where
  /-- Nothing else stands on the line, which goes with its terminator. -/
  | line (hstart : startsLine buffer (leftOf buffer start) = true)
      (hend : endsLine buffer (rightOf buffer stop) = true) :
      Tidies buffer start stop
        ⟨leftOf buffer start, afterTerminator buffer (rightOf buffer stop), []⟩
  /-- Nothing follows on the line. -/
  | trailing (hstart : startsLine buffer (leftOf buffer start) = false)
      (hend : endsLine buffer (rightOf buffer stop) = true) :
      Tidies buffer start stop ⟨leftOf buffer start, rightOf buffer stop, []⟩
  /-- Nothing precedes on the line. -/
  | leading (hstart : startsLine buffer (leftOf buffer start) = true)
      (hend : endsLine buffer (rightOf buffer stop) = false) :
      Tidies buffer start stop ⟨start, rightOf buffer stop, []⟩
  /-- The removed text went over more than one line. -/
  | broken (hstart : startsLine buffer (leftOf buffer start) = false)
      (hend : endsLine buffer (rightOf buffer stop) = false)
      (hbreak : 0x0A ∈ slice buffer start stop) :
      Tidies buffer start stop ⟨leftOf buffer start, rightOf buffer stop, [0x0A]⟩
  /-- The removed text stood in the midst of a line, next to a bracket or a separator. -/
  | closed (hstart : startsLine buffer (leftOf buffer start) = false)
      (hend : endsLine buffer (rightOf buffer stop) = false)
      (hbreak : 0x0A ∉ slice buffer start stop)
      (hbeside : (buffer[leftOf buffer start - 1]?).any isOpening = true ∨
        (buffer[rightOf buffer stop]?).any isClosing = true) :
      Tidies buffer start stop ⟨leftOf buffer start, rightOf buffer stop, []⟩
  /-- The removed text stood in the midst of a line. -/
  | spaced (hstart : startsLine buffer (leftOf buffer start) = false)
      (hend : endsLine buffer (rightOf buffer stop) = false)
      (hbreak : 0x0A ∉ slice buffer start stop) :
      Tidies buffer start stop ⟨leftOf buffer start, rightOf buffer stop, [0x20]⟩

/-- The span `s` removes `start … stop` from the buffer: on the left it takes blanks along, on the
right white space, and it leaves white space behind. -/
structure Span.Removes (s : Span) (buffer : Bytes) (start stop : Nat) : Prop where
  leftOf_le : leftOf buffer start ≤ s.start
  start_le : s.start ≤ start
  le_stop : stop ≤ s.stop
  inside : s.stop ≤ buffer.length
  taken : ∀ b ∈ slice buffer stop s.stop, isSpacing b = true
  left : ∀ b ∈ s.replacement, isSpacing b = true

section
variable {buffer : Bytes} {start stop : Nat}

/-- **A removal inside the buffer** has a span, and the span leaves tidy text. -/
theorem removalSpan_eq_some (hs : start ≤ stop) (ht : stop ≤ buffer.length) :
    ∃ s, removalSpan buffer start stop = some s ∧ s.Tidies buffer start stop := by
  rw [removalSpan, if_neg (by omega)]
  refine ⟨_, rfl, ?_⟩
  split
  · next hstart hend => exact .line hstart hend
  · next hstart hend => exact .trailing hstart hend
  · next hstart hend => exact .leading hstart hend
  · next hstart hend =>
    split
    · next hbreak => exact .broken hstart hend (List.contains_iff_mem.1 hbreak)
    · next hbreak =>
      have hbreak : 0x0A ∉ slice buffer start stop := fun h =>
        hbreak (List.contains_iff_mem.2 h)
      split
      · next hbeside => exact .closed hstart hend hbreak (Bool.or_eq_true_iff.1 hbeside)
      · exact .spaced hstart hend hbreak

/-- **A span that leaves tidy text** removes no more than white space besides. -/
theorem Span.Tidies.removes {s : Span} (h : s.Tidies buffer start stop)
    (ht : stop ≤ buffer.length) : s.Removes buffer start stop := by
  have hleft := Edit.leftOf_le buffer start
  have hright := le_rightOf buffer stop
  have hinside := rightOf_le ht
  have hblank : ∀ b ∈ slice buffer stop (rightOf buffer stop), isSpacing b = true :=
    fun b hb => by rw [isSpacing, isBlank_of_mem_slice_rightOf hb, Bool.true_or]
  -- All spans but the one of a whole line end where the blanks after the range do.
  have spaced : ∀ {left : Nat} {replacement : Bytes}, leftOf buffer start ≤ left → left ≤ start →
      (∀ b ∈ replacement, isSpacing b = true) →
      Span.Removes ⟨left, rightOf buffer stop, replacement⟩ buffer start stop :=
    fun hl hl' hr => ⟨hl, hl', hright, hinside, hblank, hr⟩
  cases h with
  | line =>
      obtain ⟨hle, hend, hbreaks⟩ := afterTerminator_spec hinside
      refine ⟨Nat.le_refl _, hleft, Nat.le_trans hright hle, hend, fun b hb => ?_, by simp⟩
      rw [← slice_append buffer hright hle, List.mem_append] at hb
      rcases hb with hb | hb
      · exact hblank b hb
      · rw [isSpacing, hbreaks b hb, Bool.or_true]
  | trailing => exact spaced (Nat.le_refl _) hleft (by simp)
  | leading => exact spaced hleft (Nat.le_refl _) (by simp)
  | closed => exact spaced (Nat.le_refl _) hleft (by simp)
  | broken | spaced => exact spaced (Nat.le_refl _) hleft (by simp; decide)

/-- A removal leaves what stands before its span, its replacement, and what follows its span. -/
theorem Span.Removes.splice {s : Span} (h : s.Removes buffer start stop) (hs : start ≤ stop) :
    s.splice buffer = buffer.take s.start ++ (s.replacement ++ buffer.drop s.stop) := by
  have := h.start_le
  have := h.le_stop
  rw [Span.splice, Nat.max_eq_right (by omega), List.append_assoc]

end

/-! ## Reads -/

/-- The positions that a removal looks at: to the left up to the first byte that is no blank, to
the right up to the first byte that is no blank unless the buffer ends there, and at the two bytes
from there on as long as the buffer goes on. -/
def removalReads (buffer : Bytes) (start stop : Nat) : List Nat :=
  let left := leftOf buffer start
  let right := rightOf buffer stop
  List.range' (left - 1) (start - (left - 1)) ++
    (List.range' stop (right + 1 - stop)).filter (· != buffer.length) ++
    (List.range' right 2).filter (· < buffer.length)

/-- **A removal has a span** exactly if all the positions that it looks at are in the buffer. -/
theorem removalSpan_isSome_iff {buffer : Bytes} {start stop : Nat} :
    (removalSpan buffer start stop).isSome ↔
      ∀ i ∈ removalReads buffer start stop, i < buffer.length := by
  have hright := le_rightOf buffer stop
  have hreads : (∀ i ∈ removalReads buffer start stop, i < buffer.length) ↔
      start ≤ buffer.length ∧ stop ≤ buffer.length := by
    simp only [removalReads, List.mem_append, List.mem_filter, List.mem_range'_1, bne_iff_ne,
      decide_eq_true_eq]
    constructor
    · intro h
      refine ⟨?_, ?_⟩
      · by_contra hlt
        have := leftOf_le buffer start
        have := h (start - 1) (.inl (.inl (by omega)))
        omega
      · by_contra hlt
        have := h stop (.inl (.inr (by omega)))
        omega
    · rintro ⟨hstart, hstop⟩ i hi
      have := rightOf_le hstop
      omega
  rw [hreads, removalSpan]
  split
  · next h => simp; omega
  · next h => simp; omega

end ScriptScrub.Edit
