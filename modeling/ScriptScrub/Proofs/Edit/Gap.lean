import ScriptScrub.Proofs.Edit.Spacing

/-!
# The gap before a byte

Splicing does not come to a byte that is no white space (`Run.stops`). So a run makes of the text
before such a byte a gap, and each removal makes of the gap behind it one of five others
(`Step.tidied`). What a gap says about line ends is kept by every removal (`Tells.tidied`), and so
by any number of them (`Run.tells`): it has no line feed that the source does not have there, and
where a line feed stood behind a byte, a line end stands there still.

A line that holds nothing else goes with its terminator because another one stands before it. At the
end of a line no line feed is put in the place of one that is removed, for the byte behind is a
line break; if it is a carriage return, then whether a line feed comes after it must have been
known before. That is why `Tells` speaks of carriage returns too, and of every byte that ends no
line.
-/

namespace ScriptScrub.Edit

/-! ## Bytes that stop white space -/

section
variable {b : UInt8}

/-- What is taken from the front of some bytes ends before a byte that is not taken. -/
theorem exists_of_append_eq {gone rest as bs : Bytes} (h : gone ++ rest = as ++ b :: bs)
    (hb : b ∉ gone) : ∃ xs, as = gone ++ xs ∧ rest = xs ++ b :: bs := by
  rcases List.append_eq_append_iff.1 h with ⟨xs, has, hrest⟩ | ⟨xs, hgone, hrest⟩
  · exact ⟨xs, has, hrest⟩
  · cases xs with
    | nil => exact ⟨[], by rw [hgone, List.append_nil, List.append_nil], hrest.symm⟩
    | cons x xs =>
        obtain ⟨rfl, -⟩ := List.cons.inj hrest
        exact absurd (hgone ▸ by simp) hb

/-- The blanks at the front end before a byte that is none. -/
theorem dropWhile_append_cons (hb : isBlank b = false) (as bs : Bytes) :
    (as ++ b :: bs).dropWhile isBlank = as.dropWhile isBlank ++ b :: bs := by
  rw [List.dropWhile_append]
  split
  · next hempty =>
    rw [List.isEmpty_iff.1 hempty, List.dropWhile_cons_of_neg (Bool.eq_false_iff.1 hb),
      List.nil_append]
  · rfl

/-- A byte that is no white space is no blank and no line break. -/
theorem isBlank_of_not_spacing (hb : isSpacing b = false) :
    isBlank b = false ∧ isLineBreak b = false :=
  Bool.or_eq_false_iff.1 hb

end

/-! ## Runs that stop at a byte -/

section
variable {source : Bytes} {e : Edit} {c c' : Nat} {tail tail' output : Bytes}

/-- The source up to a position, and on to another one. -/
theorem take_append_slice (source : Bytes) {lo hi : Nat} (h : lo ≤ hi) :
    source.take lo ++ slice source lo hi = source.take hi := by
  simpa only [slice, List.drop_zero] using slice_append source (Nat.zero_le lo) h

/-- The tail of a step may begin wherever the edit has ended. -/
theorem Step.recut (h : Step source e c tail c' tail') {x : Nat} (hstop : e.stop ≤ x)
    (hx : x ≤ c) : Step source e x (slice source x c ++ tail) c' tail' where
  left := h.left
  start := h.start
  parts := by
    rw [← List.append_assoc, slice_append source hstop hx]
    exact h.parts
  removal := by
    rw [← List.append_assoc, take_append_slice source hx]
    exact h.removal

/-- The tail of a run may begin wherever all edits have ended. -/
theorem Run.recut {es : List Edit} (h : Run source es c tail output) {x : Nat}
    (hes : ∀ e ∈ es, e.stop ≤ x) (hx : x ≤ c) :
    Run source es x (slice source x c ++ tail) output := by
  cases h with
  | done =>
      rw [← take_append_slice source hx, List.append_assoc]
      exact .done
  | step hfits hstop hstep hrun =>
      have hstop := hes _ List.mem_cons_self
      exact .step hfits hstop (hstep.recut hstop hx) hrun

/-- A run comes to edits that have ended at a position by those that begin behind it. -/
theorem Run.behind {as bs : List Edit} (h : Run source (as ++ bs) c tail output) {x : Nat}
    (hx : x ≤ c) (has : ∀ a ∈ as, x ≤ leftOf source a.start) (hbs : ∀ b ∈ bs, b.stop ≤ x) :
    ∃ tail', Run source bs x tail' output := by
  induction as generalizing c tail with
  | nil => exact ⟨_, h.recut hbs hx⟩
  | cons a as ih =>
      obtain _ | @⟨_, _, _, _, _, _, _, _, _, hstep, hrun⟩ := h
      exact ih hrun (Nat.le_trans (has a List.mem_cons_self) hstep.left)
        fun d hd => has d (List.mem_cons_of_mem _ hd)

variable {b : UInt8} {gap rest : Bytes}

/-- A step does not come to a byte of the tail that is no white space. -/
theorem Step.stops (hb : isSpacing b = false) (h : Step source e c (gap ++ b :: rest) c' tail') :
    ∃ gap', tail' = gap' ++ b :: rest := by
  obtain ⟨put, gone, left, rfl, hleft, hgone, -⟩ := h.parts
  have hmem : b ∉ gone := fun hmem => by
    rw [hgone b hmem] at hb
    cases hb
  rw [← List.append_assoc] at hleft
  obtain ⟨xs, -, rfl⟩ := exists_of_append_eq hleft.symm hmem
  exact ⟨put ++ xs, (List.append_assoc ..).symm⟩

/-- **A run does not come to a byte of the tail** that is no white space. -/
theorem Run.stops {es : List Edit} (hb : isSpacing b = false) (gap : Bytes)
    (h : Run source es c (gap ++ b :: rest) output) : ∃ before, output = before ++ b :: rest := by
  generalize htail : gap ++ b :: rest = tail at h
  induction h generalizing gap with
  | done => exact ⟨_, by rw [← htail, List.append_assoc]⟩
  | step _ _ hstep _ ih =>
      subst htail
      obtain ⟨gap', hgap⟩ := hstep.stops hb
      exact ih gap' hgap.symm

end

/-! ## One removal before a byte -/

/-- What a removal makes of the text `gap` that stands behind it, up to a byte that is no white
space: the position up to which the source stays, and what stands behind that position then. -/
inductive Tidied (source : Bytes) (e : Edit) (gap : Bytes) : Nat → Bytes → Prop where
  | line (hstart : startsLine source (leftOf source e.start) = true) {rest : Bytes}
      (hrest : rest <:+ gap) : Tidied source e gap (leftOf source e.start) rest
  | trailing {b : UInt8} {rest : Bytes} (hb : isLineBreak b = true)
      (hgap : gap.dropWhile isBlank = b :: rest) :
      Tidied source e gap (leftOf source e.start) (b :: rest)
  | leading (hstart : startsLine source (leftOf source e.start) = true) :
      Tidied source e gap e.start (gap.dropWhile isBlank)
  | broken (hbreak : 0x0A ∈ slice source e.start e.stop) :
      Tidied source e gap (leftOf source e.start) (0x0A :: gap.dropWhile isBlank)
  | joined (hbreak : 0x0A ∉ slice source e.start e.stop) {put : Bytes}
      (hput : ∀ b ∈ put, isBlank b = true) :
      Tidied source e gap (leftOf source e.start) (put ++ gap.dropWhile isBlank)

section
variable {source : Bytes} {e : Edit} {gap gap' rest : Bytes} {b : UInt8}

/-- What a removal leaves depends on the text behind it and on the source up to its end. -/
theorem Tidied.congr {source' : Bytes} {i : Nat} (he : e.start ≤ e.stop)
    (hsource : source.take e.stop = source'.take e.stop) (h : Tidied source e gap i gap') :
    Tidied source' e gap i gap' := by
  have htake : ∀ {j : Nat}, j ≤ e.stop → source.take j = source'.take j := fun {j} hj => by
    rw [← Nat.min_eq_left hj, ← List.take_take, hsource, List.take_take]
  have hleft : leftOf source e.start = leftOf source' e.start := leftOf_congr (htake he)
  have hline := startsLine_congr (htake (Nat.le_trans (leftOf_le source e.start) he))
  have hslice : slice source e.start e.stop = slice source' e.start e.stop := by
    rw [slice, hsource, slice]
  cases h with
  | line hstart hrest => exact hleft ▸ .line (by rw [← hleft, ← hline, hstart]) hrest
  | trailing hb hgap => exact hleft ▸ .trailing hb hgap
  | leading hstart => exact .leading (by rw [← hleft, ← hline, hstart])
  | broken hbreak => exact hleft ▸ .broken (hslice ▸ hbreak)
  | joined hbreak hput => exact hleft ▸ .joined (hslice ▸ hbreak) hput

/-- **A tidy removal** takes from the text behind it and leaves the byte at the end of that text. -/
theorem Span.Tidies.tidied {buffer : Bytes} {s : Span} (hb : isSpacing b = false)
    (h : s.Tidies buffer e.start e.stop) (hin : e.stop ≤ buffer.length)
    (hbuffer : buffer.drop e.stop = gap ++ b :: rest) :
    ∃ gap', s.replacement ++ buffer.drop s.stop = gap' ++ b :: rest ∧
      Tidied buffer e gap s.start gap' := by
  obtain ⟨hblank, hbreak⟩ := isBlank_of_not_spacing hb
  have hdrop : buffer.drop (rightOf buffer e.stop) = gap.dropWhile isBlank ++ b :: rest := by
    rw [drop_rightOf, hbuffer, dropWhile_append_cons hblank]
  cases h with
  | line hstart =>
      obtain ⟨hle, -, hbreaks⟩ := afterTerminator_spec (rightOf_le hin)
      have hterminator := (slice_append_drop hle).trans hdrop
      obtain ⟨xs, hgap, hafter⟩ := exists_of_append_eq hterminator fun hmem => by
        rw [hbreaks b hmem] at hbreak
        cases hbreak
      have hsuffix : xs <:+ gap.dropWhile isBlank := ⟨_, hgap.symm⟩
      exact ⟨xs, hafter, .line hstart (hsuffix.trans (List.dropWhile_suffix _))⟩
  | trailing _ hend =>
      rw [List.nil_append, hdrop]
      refine ⟨_, rfl, ?_⟩
      have hhead : buffer[rightOf buffer e.stop]? = (gap.dropWhile isBlank ++ b :: rest)[0]? := by
        rw [← hdrop, List.getElem?_drop, Nat.add_zero]
      rw [endsLine, hhead] at hend
      cases hgap : gap.dropWhile isBlank with
      | nil =>
          rw [hgap] at hend
          exact absurd hend (Bool.eq_false_iff.1 hbreak)
      | cons x xs =>
          rw [hgap] at hend
          exact .trailing hend hgap
  | leading hstart => exact ⟨_, hdrop, .leading hstart⟩
  | broken _ _ hlf =>
      rw [hdrop]
      exact ⟨_, rfl, .broken hlf⟩
  | closed _ _ hlf =>
      rw [hdrop, ← List.append_assoc]
      exact ⟨_, rfl, .joined hlf (by simp)⟩
  | spaced _ _ hlf =>
      rw [hdrop, ← List.append_assoc]
      exact ⟨_, rfl, .joined hlf (List.forall_mem_singleton.2 rfl)⟩

/-- A step that removes leaves tidy text before a byte of the tail that is no white space. -/
theorem Step.tidied {c c' : Nat} {tail' : Bytes} (hb : isSpacing b = false)
    (hrem : e.isRemoval = true) (hfits : Fits source e) (hstop : e.stop ≤ c)
    (hc : c ≤ source.length) (h : Step source e c (gap ++ b :: rest) c' tail') :
    ∃ gap', tail' = gap' ++ b :: rest ∧ Tidied source e (slice source e.stop c ++ gap) c' gap' := by
  obtain ⟨s, hs, rfl, rfl⟩ := h.removal hrem
  have hin : e.stop ≤ (source.take c ++ (gap ++ b :: rest)).length := by
    rw [List.length_append, List.length_take_of_le hc]
    omega
  obtain ⟨gap', hgap', htidied⟩ := hs.tidied hb hin (by
    rw [drop_buffer _ hc hstop, ← List.append_assoc])
  exact ⟨gap', hgap', htidied.congr hfits.ordered (take_buffer _ hc hstop)⟩

end

/-! ## Line ends in the gap -/

/-- What is to count as the end of a line: a line feed, no blank, and a carriage return unless a
line feed follows each that no edit covers between `lo` and `hi`. -/
structure Ending (source : Bytes) (edits : List Edit) (lo hi : Nat) (ends : UInt8 → Prop) :
    Prop where
  lineFeed : ends 0x0A
  not_blank : ∀ x, ends x → isBlank x = false
  returns : ∀ i, lo < i → i < hi → source[i]? = some 0x0D → uncovered edits i = true →
    ends 0x0D ∨ 0x0A ∈ slice source (i + 1) hi

/-- What the text `gap` that the removals between `c` and `hi` left says about line ends. -/
structure Tells (source : Bytes) (lo hi : Nat) (ends : UInt8 → Prop) (c : Nat) (gap : Bytes) :
    Prop where
  /-- It has no line feed of its own. -/
  invented : 0x0A ∈ gap → 0x0A ∈ slice source c hi
  /-- If a line feed followed a byte that does not end a line, a line end still does. -/
  kept : ∀ i b, lo ≤ i → i < c → source[i]? = some b → isBlank b = false → b ≠ 0x0A →
    0x0A ∈ slice source (i + 1) hi → 0x0A ∈ slice source (i + 1) c ∨ ∃ x ∈ gap, ends x
  /-- A carriage return ends a line, or else a line end follows it. -/
  returns : ∀ rest, 0x0D :: rest <:+ gap → ends 0x0D ∨ ∃ x ∈ rest, ends x

section
variable {source : Bytes} {lo hi c c' : Nat} {ends : UInt8 → Prop} {gap gap' : Bytes}

/-- Before the first removal there is nothing to tell. -/
theorem tells_nil (source : Bytes) (lo hi : Nat) (ends : UInt8 → Prop) :
    Tells source lo hi ends hi [] where
  invented h := absurd h List.not_mem_nil
  kept _ _ _ _ _ _ _ h := .inl h
  returns _ h := absurd (List.eq_nil_of_suffix_nil h) (List.cons_ne_nil _ _)

/-- A byte of a slice is one of any slice around it. -/
theorem slice_subset {lo' hi' : Nat} (hlo : lo' ≤ lo) (hhi : hi ≤ hi') {b : UInt8}
    (h : b ∈ slice source lo hi) : b ∈ slice source lo' hi' := by
  obtain ⟨i, hi₁, hi₂, hb⟩ := mem_slice_iff.1 h
  exact mem_slice_iff.2 ⟨i, by omega, by omega, hb⟩

/-- A suffix that begins with a byte that some bytes do not have is one of what follows them. -/
theorem suffix_of_suffix_append {b : UInt8} {xs ys rest : Bytes} (h : b :: rest <:+ xs ++ ys)
    (hb : b ∉ xs) : b :: rest <:+ ys := by
  induction xs with
  | nil => exact h
  | cons x xs ih =>
      obtain ⟨hx, hxs⟩ := not_or.1 (mt List.mem_cons.2 hb)
      rcases List.suffix_cons_iff.1 h with h | h
      · exact absurd (List.cons.inj h).1 hx
      · exact ih h hxs

/-- What is no blank is not among the blanks at the front. -/
theorem mem_dropWhile_of_not_blank {x : UInt8} (hx : x ∈ gap) (hblank : isBlank x = false) :
    x ∈ gap.dropWhile isBlank := by
  rw [← List.takeWhile_append_dropWhile (p := isBlank) (l := gap), List.mem_append] at hx
  refine hx.resolve_left fun h => ?_
  rw [List.mem_takeWhile_imp h] at hblank
  cases hblank

/-- Where a line starts, it starts behind a line feed that stands behind any byte before it that is
none, unless the byte belongs to a byte order mark. -/
theorem mem_slice_of_startsLine {i left : Nat} {b : UInt8} (hi : i < left)
    (hb : source[i]? = some b) (hne : b ≠ 0x0A)
    (hmark : byteOrderMark <+: source → byteOrderMark.length ≤ i)
    (h : startsLine source left = true) : 0x0A ∈ slice source (i + 1) left := by
  rcases startsLine_iff.1 h with h | h | ⟨hmarked, h⟩
  · omega
  · have hlast : left - 1 ≠ i := by
      rintro rfl
      rw [hb, Option.some.injEq] at h
      exact hne h
    exact mem_slice_iff.2 ⟨left - 1, by omega, by omega, h⟩
  · have := hmark hmarked
    omega

/-- What follows a byte of a slice is a slice. -/
theorem slice_eq_append_cons {b : UInt8} {xs ys : Bytes}
    (h : slice source lo hi = xs ++ b :: ys) :
    lo + xs.length < hi ∧ source[lo + xs.length]? = some b ∧
      ys = slice source (lo + xs.length + 1) hi := by
  have hdrop : slice source (lo + xs.length) hi = b :: ys := by
    rw [slice, ← List.drop_drop, ← slice, h, List.drop_left]
  have hbyte : (source.take hi)[lo + xs.length]? = some b := by
    have hfirst : (slice source (lo + xs.length) hi)[0]? = (b :: ys)[0]? := by rw [hdrop]
    rw [slice, List.getElem?_drop, Nat.add_zero] at hfirst
    exact hfirst
  rw [List.getElem?_take] at hbyte
  split at hbyte
  · next hlt =>
    refine ⟨hlt, hbyte, ?_⟩
    rw [slice, ← List.drop_drop, ← slice, hdrop, List.drop_one, List.tail_cons]
  · cases hbyte

variable {edits : List Edit} {e : Edit}

/-- Behind an edit that has been removed, a carriage return ends a line or a line end follows it. -/
theorem Tells.returns_behind (hends : Ending source edits lo hi ends)
    (h : Tells source lo hi ends c gap) {stop : Nat} (hlo : lo < stop) (hc : c ≤ hi)
    (hbare : ∀ i, stop ≤ i → i < c → uncovered edits i = true) {rest : Bytes}
    (hrest : 0x0D :: rest <:+ slice source stop c ++ gap) :
    ends 0x0D ∨ ∃ x ∈ rest, ends x := by
  obtain ⟨before, hbefore⟩ := hrest
  rcases List.append_eq_append_iff.1 hbefore with ⟨xs, hslice, hxs⟩ | ⟨xs, -, hxs⟩
  · cases xs with
    | nil => exact h.returns rest (hxs ▸ List.suffix_refl _)
    | cons x xs =>
        obtain ⟨rfl, rfl⟩ := List.cons.inj hxs
        obtain ⟨hi', hbyte, rfl⟩ := slice_eq_append_cons hslice
        refine (hends.returns _ (by omega) (by omega) hbyte (hbare _ (by omega) hi')).imp_right
          fun hlf => ?_
        rcases h.kept _ _ (by omega) hi' hbyte rfl (by decide) hlf with hlf | ⟨x, hx, hxends⟩
        · exact ⟨_, List.mem_append_left _ hlf, hends.lineFeed⟩
        · exact ⟨x, List.mem_append_right _ hx, hxends⟩
  · exact h.returns rest (hxs ▸ List.suffix_append _ _)

/-- If a line feed followed a byte before an edit that does not end a line, then one follows it
before the edit, or the edit has one, or there is a line end behind the edit. -/
theorem Tells.kept_behind (hends : Ending source edits lo hi ends)
    (h : Tells source lo hi ends c gap) (hfits : Fits source e) (hstop : e.stop ≤ c) {i : Nat}
    {b : UInt8} (hlo : lo ≤ i) (hi' : i < e.start) (hb : source[i]? = some b)
    (hblank : isBlank b = false) (hne : b ≠ 0x0A) (hlf : 0x0A ∈ slice source (i + 1) hi) :
    0x0A ∈ slice source (i + 1) (leftOf source e.start) ∨ 0x0A ∈ slice source e.start e.stop ∨
      ∃ x ∈ slice source e.stop c ++ gap, ends x := by
  have horder := hfits.ordered
  have hle : e.start ≤ source.length := Nat.le_trans horder hfits.inside
  have hleft := lt_leftOf hb hblank hi' hle
  have hleft' := leftOf_le source e.start
  rcases h.kept i b hlo (by omega) hb hblank hne hlf with hlf | ⟨x, hx, hxends⟩
  · rw [← slice_append source (Nat.succ_le_of_lt hleft) (by omega : leftOf source e.start ≤ c),
      ← slice_append source hleft' (by omega : e.start ≤ c), ← slice_append source horder hstop,
      List.mem_append, List.mem_append, List.mem_append] at hlf
    rcases hlf with hlf | hlf | hlf | hlf
    · exact .inl hlf
    · exact absurd (isBlank_of_mem_slice_leftOf hle hlf) (by decide)
    · exact .inr (.inl hlf)
    · exact .inr (.inr ⟨_, List.mem_append_left _ hlf, hends.lineFeed⟩)
  · exact .inr (.inr ⟨x, List.mem_append_right _ hx, hxends⟩)

/-- A tidy removal moves the end of the source that stays over blanks only. -/
theorem Tidied.bounds {i : Nat} (h : Tidied source e gap i gap') :
    leftOf source e.start ≤ i ∧ i ≤ e.start := by
  have hle := leftOf_le source e.start
  cases h with
  | leading => exact ⟨hle, Nat.le_refl _⟩
  | line | trailing | broken | joined => exact ⟨Nat.le_refl _, hle⟩

/-- A line feed that a tidy removal leaves was removed, or stood in the text behind. -/
theorem Tidied.lineFeed {i : Nat} (h : Tidied source e gap i gap') (hlf : 0x0A ∈ gap') :
    0x0A ∈ slice source e.start e.stop ∨ 0x0A ∈ gap := by
  have hsuffix := List.dropWhile_suffix (l := gap) isBlank
  cases h with
  | line _ hrest => exact .inr (hrest.subset hlf)
  | trailing _ hgap => exact .inr (hsuffix.subset (hgap ▸ hlf))
  | leading => exact .inr (hsuffix.subset hlf)
  | broken hbreak => exact .inl hbreak
  | joined _ hput =>
      rcases List.mem_append.1 hlf with hlf | hlf
      · exact absurd (hput _ hlf) (by decide)
      · exact .inr (hsuffix.subset hlf)

/-- A carriage return that a tidy removal leaves stood in the text behind, before the same bytes. -/
theorem Tidied.carriageReturn {i : Nat} (h : Tidied source e gap i gap') {rest : Bytes}
    (hrest : 0x0D :: rest <:+ gap') : 0x0D :: rest <:+ gap := by
  have hsuffix := List.dropWhile_suffix (l := gap) isBlank
  cases h with
  | line _ hgap => exact hrest.trans hgap
  | trailing _ hgap => exact hrest.trans (hgap ▸ hsuffix)
  | leading => exact hrest.trans hsuffix
  | broken =>
      rcases List.suffix_cons_iff.1 hrest with hrest | hrest
      · exact absurd (List.cons.inj hrest).1 (by decide)
      · exact hrest.trans hsuffix
  | joined _ hput =>
      have hcr : (0x0D : UInt8) ∉ _ := fun hmem => absurd (hput _ hmem) (by decide)
      exact (suffix_of_suffix_append hrest hcr).trans hsuffix

/-- If a line feed followed a byte that does not end a line, a line end still does after a tidy
removal. -/
theorem Tidied.kept {gap : Bytes} (hends : Ending source edits lo hi ends)
    (ht : Tidied source e gap c' gap') (he : e.start ≤ source.length) {i : Nat} {b : UInt8}
    (hi' : i < e.start) (hb : source[i]? = some b) (hblank : isBlank b = false) (hne : b ≠ 0x0A)
    (hmark : byteOrderMark <+: source → byteOrderMark.length ≤ i)
    (hreturns : ∀ rest, 0x0D :: rest <:+ gap → ends 0x0D ∨ ∃ x ∈ rest, ends x)
    (hseen : 0x0A ∈ slice source (i + 1) (leftOf source e.start) ∨
      0x0A ∈ slice source e.start e.stop ∨ ∃ x ∈ gap, ends x) :
    0x0A ∈ slice source (i + 1) c' ∨ ∃ x ∈ gap', ends x := by
  have hfeed := mem_slice_of_startsLine (lt_leftOf hb hblank hi' he) hb hne hmark
  cases ht with
  | line hline => exact .inl (hfeed hline)
  | leading hline => exact .inl (slice_subset (Nat.le_refl _) (leftOf_le _ _) (hfeed hline))
  | broken => exact .inr ⟨_, List.mem_cons_self, hends.lineFeed⟩
  | @trailing x xs hx hgap =>
      refine .inr ?_
      rcases isLineBreak_iff.1 hx with rfl | rfl
      · rcases hreturns xs (hgap ▸ List.dropWhile_suffix isBlank) with hcr | ⟨y, hy, hyends⟩
        · exact ⟨_, List.mem_cons_self, hcr⟩
        · exact ⟨y, List.mem_cons_of_mem _ hy, hyends⟩
      · exact ⟨_, List.mem_cons_self, hends.lineFeed⟩
  | joined hbreak =>
      rcases hseen with hlf | hlf | ⟨x, hx, hxends⟩
      · exact .inl hlf
      · exact absurd hlf hbreak
      · have hx := mem_dropWhile_of_not_blank hx (hends.not_blank x hxends)
        exact .inr ⟨x, List.mem_append_right _ hx, hxends⟩

/-- **A tidy removal tells of line ends** what the text did before. -/
theorem Tells.tidied (hends : Ending source edits lo hi ends)
    (h : Tells source lo hi ends c gap) (hfits : Fits source e) (hlo : lo < e.start)
    (hstop : e.stop ≤ c) (hc : c ≤ hi)
    (hmark : byteOrderMark <+: source → byteOrderMark.length ≤ lo)
    (hbare : ∀ i, e.stop ≤ i → i < c → uncovered edits i = true)
    (ht : Tidied source e (slice source e.stop c ++ gap) c' gap') :
    Tells source lo hi ends c' gap' := by
  have horder := hfits.ordered
  obtain ⟨-, hstart⟩ := ht.bounds
  have hreturns : ∀ rest, 0x0D :: rest <:+ slice source e.stop c ++ gap →
      ends 0x0D ∨ ∃ x ∈ rest, ends x := fun rest =>
    h.returns_behind hends (Nat.lt_of_lt_of_le hlo horder) hc hbare
  refine ⟨fun hlf => ?_, fun i b hloi hi' hb hblank hne hlf => ?_, fun rest hrest =>
    hreturns rest (ht.carriageReturn hrest)⟩
  · rcases ht.lineFeed hlf with hlf | hlf
    · exact slice_subset hstart (Nat.le_trans hstop hc) hlf
    rcases List.mem_append.1 hlf with hlf | hlf
    · exact slice_subset (Nat.le_trans hstart horder) hc hlf
    · exact slice_subset (by omega) (Nat.le_refl _) (h.invented hlf)
  · have hi' : i < e.start := Nat.lt_of_lt_of_le hi' hstart
    exact ht.kept hends (Nat.le_trans horder hfits.inside) hi' hb hblank hne
      (fun hm => Nat.le_trans (hmark hm) hloi) hreturns
      (h.kept_behind hends hfits hstop hloi hi' hb hblank hne hlf)

end

/-! ## Removals between two bytes -/

section
variable {source : Bytes} {edits : List Edit} {lo hi : Nat} {b : UInt8}

/-- **Removals before a byte** leave the source up to some position, and behind it a gap that tells
of line ends, whatever is to count as one. -/
theorem Run.tells {es ds : List Edit} {c : Nat} (gap : Bytes) {rest output : Bytes}
    (hb : isSpacing b = false) (h : Run source (es ++ ds) c (gap ++ b :: rest) output)
    (hlo : lo < c) (hc : c ≤ hi) (hhi : hi ≤ source.length) {first : UInt8}
    (hfirst : source[lo]? = some first) (hsolid : isSpacing first = false)
    (hmark : byteOrderMark <+: source → byteOrderMark.length ≤ lo)
    (hes : ∀ e ∈ es, lo < e.start ∧ e.isRemoval = true)
    (hlisted : ∀ d ∈ edits, d ∈ es ++ ds ∨ c ≤ d.start)
    (htells : ∀ ends, Ending source edits lo hi ends → Tells source lo hi ends c gap) :
    ∃ c' gap', lo < c' ∧ c' ≤ hi ∧ Run source ds c' (gap' ++ b :: rest) output ∧
      ∀ ends, Ending source edits lo hi ends → Tells source lo hi ends c' gap' := by
  induction es generalizing c gap with
  | nil => exact ⟨c, gap, hlo, hc, h, htells⟩
  | cons e es ih =>
      obtain _ | @⟨_, _, _, c', _, tail', _, hfits, hstop, hstep, hrun⟩ := h
      obtain ⟨hstart, hrem⟩ := hes e List.mem_cons_self
      obtain ⟨gap', rfl, htidied⟩ := hstep.tidied hb hrem hfits hstop (by omega)
      obtain ⟨hleft, hle⟩ := htidied.bounds
      have horder := hfits.ordered
      have hlo' := lt_leftOf hfirst (isBlank_of_not_spacing hsolid).1 hstart
        (Nat.le_trans horder hfits.inside)
      have hbare : ∀ i, e.stop ≤ i → i < c → uncovered edits i = true := fun i hi₁ hi₂ => by
        refine uncovered_eq_true fun d hd => ?_
        rcases hlisted d hd with hd | hd
        · rcases List.mem_cons.1 hd with rfl | hd
          · exact .inr hi₁
          · have := hrun.stop_le d hd
            omega
        · omega
      refine ih gap' hrun (by omega) (by omega) (fun d hd => hes d (List.mem_cons_of_mem _ hd)) ?_
        fun ends hends =>
          (htells ends hends).tidied hends hfits hstart hstop hc hmark hbare htidied
      intro d hd
      rcases hlisted d hd with hd | hd
      · rcases List.mem_cons.1 hd with rfl | hd
        · exact .inr hle
        · exact .inl hd
      · exact .inr (by omega)

end

end ScriptScrub.Edit
