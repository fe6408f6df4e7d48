import ScriptScrub.Proofs.Edit.Gap

/-!
# Line feeds between two bytes

The edits before, between and behind two bytes that stay make of the source before, between and
behind them what stands there in the output (`Parts.run_behind`, `Run.tells`, `Parts.run_before`),
and one text only stands between the two (`IsBetween.unique`). It has a line feed exactly if the
source has one between the bytes, unless a carriage return without a line feed ends the line
(`lineFeed_between`, `lineFeed_lost`).
-/

namespace ScriptScrub.Edit

open Text (encode)

/-! ## Edits around two bytes -/

section
variable {source : Bytes} {edits : List Edit} {lo hi : Nat} {b : UInt8}

/-- The edits fall into those before, between and behind two positions. -/
structure Parts (source : Bytes) (edits : List Edit) (lo hi : Nat)
    (before between after : List Edit) : Prop where
  split : ascending edits = before ++ between ++ after
  before : ∀ e ∈ before, e.stop ≤ lo
  between : ∀ e ∈ between, lo < e.start ∧ e.stop ≤ hi
  after : ∀ e ∈ after, hi < e.start ∧ e.start ≤ source.length ∧ e.stop ≤ source.length

/-- Spaced edits fall into those before, between and behind two positions that none of them
covers. -/
theorem Spaced.exists_parts (h : Spaced source edits) (hlohi : lo < hi)
    (hlo : uncovered edits lo = true) (hhi : uncovered edits hi = true) :
    ∃ before between after, Parts source edits lo hi before between after := by
  have hspaced := h.perm (ascending_perm edits)
  have hsides : ∀ e ∈ ascending edits, e.start < e.stop ∧ e.stop ≤ source.length ∧
      (lo < e.start ∨ e.stop ≤ lo) ∧ (hi < e.start ∨ e.stop ≤ hi) := fun e he => by
    obtain ⟨hne, hinside⟩ := hspaced.inside e he
    have he := (ascending_perm edits).mem_iff.1 he
    exact ⟨hne, hinside, of_decide_eq_true (List.all_eq_true.1 hlo e he),
      of_decide_eq_true (List.all_eq_true.1 hhi e he)⟩
  obtain ⟨before, between, after, hsplit, hbefore, hbetween, hafter⟩ :=
    exists_split_between (x := lo) (y := hi) h.pairwise_ascending fun e he => by
      have := hsides e he
      omega
  rw [hsplit] at hsides
  refine ⟨before, between, after, hsplit, hbefore, fun e he => ?_, fun e he => ?_⟩
  · have := hsides e (List.mem_append_left _ (List.mem_append_right _ he))
    have := hbetween e he
    omega
  · have := hsides e (List.mem_append_right _ he)
    have := hafter e he
    omega

/-- The byte at a position. -/
theorem slice_succ {i : Nat} (h : source[i]? = some b) : slice source i (i + 1) = [b] := by
  obtain ⟨hi, rfl⟩ := List.getElem?_eq_some_iff.1 h
  rw [← filterMap_range' (Nat.le_add_right i 1) hi, Nat.add_sub_cancel_left, List.range'_one,
    List.filterMap_cons_some h, List.filterMap_nil]

variable {before between after : List Edit} {output : Bytes}

/-- The edits between and before the positions end before the second one. -/
theorem Parts.stop_le (hparts : Parts source edits lo hi before between after) (hlohi : lo < hi) :
    ∀ e ∈ before ++ between, e.stop ≤ hi := fun e he => by
  rcases List.mem_append.1 he with he | he
  · exact Nat.le_trans (hparts.before e he) (Nat.le_of_lt hlohi)
  · exact (hparts.between e he).2

/-- **Behind the second position** the output is what the edits make of the source there. -/
theorem Parts.run_behind (h : Spaced source edits)
    (hparts : Parts source edits lo hi before between after) (hlohi : lo < hi)
    (hb : source[hi]? = some b) (hsolid : isSpacing b = false) (hhi : uncovered edits hi = true) :
    ∃ output tail, spliced? source edits = some output ∧
      Run source (between.reverse ++ before.reverse) hi (b :: tail) output ∧
      solid tail = solid (replaced source (hi + 1) source.length edits) := by
  have hinside : hi < source.length := (List.getElem?_eq_some_iff.1 hb).1
  have hstop : ∀ e ∈ between.reverse ++ before.reverse, e.stop ≤ hi := fun e he => by
    rw [← List.reverse_append, List.mem_reverse] at he
    exact hparts.stop_le hlohi e he
  obtain ⟨output, hout, hrun⟩ := h.exists_run
  have hwhole := hrun.solid_eq
  rw [hparts.split, List.reverse_append, List.reverse_append] at hrun
  -- No edit behind the position comes to the byte there.
  obtain ⟨tail, hrun⟩ := hrun.behind (x := hi + 1) hinside
    (fun e he => by
      obtain ⟨hstart, hle, -⟩ := hparts.after e (List.mem_reverse.1 he)
      exact lt_leftOf hb (isBlank_of_not_spacing hsolid).1 hstart hle)
    fun e he => Nat.le_succ_of_le (hstop e he)
  have hrun := hrun.recut hstop (Nat.le_succ hi)
  rw [slice_succ hb] at hrun
  refine ⟨output, tail, hout edits (.refl _), hrun, ?_⟩
  have hsplit : ascending edits = (before ++ between) ++ after ++ [] := by
    rw [hparts.split, List.append_nil]
  have hafter : ∀ e ∈ after, hi ≤ e.start := fun e he => Nat.le_of_lt (hparts.after e he).1
  have hplain := h.replaced_eq_plain hsplit (Nat.le_of_lt hinside) (Nat.le_refl _)
    (hparts.stop_le hlohi) (fun e he => ⟨hafter e he, (hparts.after e he).2.2⟩) (by simp)
  rw [replaced_append (Nat.le_succ hi) hinside, h.replaced_of_uncovered hhi hb] at hplain
  have hsum := hrun.solid_eq.symm.trans hwhole
  rw [List.reverse_append, List.reverse_reverse, List.reverse_reverse, List.reverse_reverse,
    hparts.split, plain_append source _ _ (Nat.zero_le hi) (Nat.le_of_lt hinside)
      (hparts.stop_le hlohi) hafter, ← hplain] at hsum
  simp only [solid_append, List.append_assoc] at hsum
  have hsum := List.append_cancel_left (List.append_cancel_left hsum)
  exact hsum.trans (List.append_nil _)

/-- **Before the first position** the output is what the edits make of the source there. -/
theorem Parts.run_before (h : Spaced source edits)
    (hparts : Parts source edits lo hi before between after) (hlohi : lo < hi) {c : Nat}
    (hlo : lo < c) {rest : Bytes} (hrun : Run source before.reverse c rest output)
    (hb : source[lo]? = some b) (hsolid : isSpacing b = false) :
    ∃ head, output = head ++ b :: (slice source (lo + 1) c ++ rest) ∧
      solid head = solid (replaced source 0 lo edits) := by
  have hinside : lo < source.length := (List.getElem?_eq_some_iff.1 hb).1
  have hrun := hrun.recut (fun e he => hparts.before e (List.mem_reverse.1 he)) (Nat.le_of_lt hlo)
  rw [← slice_append source (Nat.le_succ lo) hlo, slice_succ hb, List.append_assoc] at hrun
  obtain ⟨head, rfl⟩ := Run.stops hsolid [] hrun
  refine ⟨head, rfl, ?_⟩
  have hhead := hrun.solid_eq
  rw [solid_append, List.reverse_reverse] at hhead
  have hsplit : ascending edits = [] ++ before ++ (between ++ after) := by
    rw [hparts.split, List.nil_append, List.append_assoc]
  rw [h.replaced_eq_plain hsplit (Nat.zero_le lo) (Nat.le_of_lt hinside) (by simp)
    (fun e he => ⟨Nat.zero_le _, hparts.before e he⟩) fun e he => ?_]
  · exact List.append_cancel_right hhead
  · rcases List.mem_append.1 he with he | he
    · exact Nat.le_of_lt (hparts.between e he).1
    · exact Nat.le_trans (Nat.le_of_lt hlohi) (Nat.le_of_lt (hparts.after e he).1)

end

/-! ## Line feeds between two bytes -/

/-- In the output, `between` is what stands between the bytes from the positions `lo` and `hi`: what
stands before and behind them is, up to white space, what the edits make of the source there. -/
def IsBetween (source : Bytes) (edits : List Edit) (lo hi : Nat) (output between : Bytes) : Prop :=
  ∃ before after first last, source[lo]? = some first ∧ source[hi]? = some last ∧
    output = before ++ first :: (between ++ last :: after) ∧
    solid before = solid (replaced source 0 lo edits) ∧
    solid after = solid (replaced source (hi + 1) source.length edits)

/-- A byte that is no white space stands at one position only with the same bytes before it, or with
the same behind it, up to white space. -/
theorem append_inj_of_solid {b : UInt8} (hb : isSpacing b = false) {as bs cs ds : Bytes}
    (h : as ++ b :: bs = cs ++ b :: ds) (hsolid : solid as = solid cs ∨ solid bs = solid ds) :
    as = cs ∧ bs = ds := by
  have hbyte : solid [b] = [b] := List.filter_cons_of_pos (by rw [hb]; rfl)
  have longer : ∀ xs ys : Bytes, solid (xs ++ b :: ys) ≠ solid xs ∧
      solid (xs ++ b :: ys) ≠ solid ys := fun xs ys => by
    have hlength : (solid (xs ++ b :: ys)).length = (solid xs).length + (solid ys).length + 1 := by
      rw [← List.singleton_append, solid_append, solid_append, hbyte, List.length_append,
        List.length_append, List.length_singleton]
      omega
    constructor
    · intro h
      rw [h] at hlength
      omega
    · intro h
      rw [h] at hlength
      omega
  rcases List.append_eq_append_iff.1 h with ⟨xs, rfl, hxs⟩ | ⟨xs, rfl, hxs⟩
  · cases xs with
    | nil => exact ⟨(List.append_nil _).symm, (List.cons.inj hxs).2⟩
    | cons x xs =>
        obtain ⟨rfl, rfl⟩ := List.cons.inj hxs
        rcases hsolid with hsolid | hsolid
        · exact absurd hsolid.symm (longer as xs).1
        · exact absurd hsolid (longer xs ds).2
  · cases xs with
    | nil => exact ⟨List.append_nil _, (List.cons.inj hxs).2.symm⟩
    | cons x xs =>
        obtain ⟨rfl, rfl⟩ := List.cons.inj hxs
        rcases hsolid with hsolid | hsolid
        · exact absurd hsolid (longer cs xs).1
        · exact absurd hsolid.symm (longer xs bs).2

/-- **One text stands between** two bytes that are no white space. -/
theorem IsBetween.unique {source : Bytes} {edits : List Edit} {lo hi : Nat} {first last : UInt8}
    (hfirst : source[lo]? = some first) (hlast : source[hi]? = some last)
    (hsolid : isSpacing first = false) (hsolid' : isSpacing last = false)
    {output between between' : Bytes} (h : IsBetween source edits lo hi output between)
    (h' : IsBetween source edits lo hi output between') : between = between' := by
  obtain ⟨before, after, b, d, hb, hd, rfl, hbefore, hafter⟩ := h
  obtain ⟨before', after', b', d', hb', hd', heq, hbefore', hafter'⟩ := h'
  rw [hfirst, Option.some.injEq] at hb hb'
  rw [hlast, Option.some.injEq] at hd hd'
  subst hb hb' hd hd'
  have hrest := (append_inj_of_solid hsolid heq (.inl (hbefore.trans hbefore'.symm))).2
  exact (append_inj_of_solid hsolid' hrest (.inr (hafter.trans hafter'.symm))).1

section
variable {source : Bytes} {edits : List Edit} {lo hi : Nat}

/-- Line breaks are line ends. -/
theorem ending_isLineBreak : Ending source edits lo hi fun x => isLineBreak x = true where
  lineFeed := rfl
  not_blank _ := isBlank_of_isLineBreak
  returns _ _ _ _ _ := .inl rfl

/-- Line feeds are line ends if one follows each carriage return that no edit covers. -/
theorem ending_lineFeed (h : ∀ i, lo < i → i < hi → source[i]? = some 0x0D →
    uncovered edits i = true → 0x0A ∈ slice source (i + 1) hi) :
    Ending source edits lo hi fun x => x = 0x0A where
  lineFeed := rfl
  not_blank _ hx := hx ▸ rfl
  returns i hlo hhi hb hun := .inr (h i hlo hhi hb hun)

/-- **Line feeds between two bytes.** Where only removals lie between two bytes that no edit covers
and that are no white space, splicing puts no line feed between them unless one stood there, a
removed one included. If one stood there, a line break stands between them in the output, and it is
a line feed if one followed every carriage return that no edit covers. -/
theorem lineFeed_between (h : Spaced source edits) (hlohi : lo < hi) {first last : UInt8}
    (hfirst : source[lo]? = some first) (hlast : source[hi]? = some last)
    (hsolid : isSpacing first = false) (hsolid' : isSpacing last = false)
    (hlo : uncovered edits lo = true) (hhi : uncovered edits hi = true)
    (hmark : byteOrderMark <+: source → byteOrderMark.length ≤ lo)
    (hremoved : ∀ e ∈ edits, lo < e.start → e.stop ≤ hi → e.isRemoval = true) :
    ∃ output between, spliced? source edits = some output ∧
      IsBetween source edits lo hi output between ∧
      (0x0A ∈ between → 0x0A ∈ slice source (lo + 1) hi) ∧
      (0x0A ∈ slice source (lo + 1) hi → ∃ x ∈ between, isLineBreak x = true) ∧
      ((∀ i, lo < i → i < hi → source[i]? = some 0x0D → uncovered edits i = true →
          0x0A ∈ slice source (i + 1) hi) →
        (0x0A ∈ slice source (lo + 1) hi ↔ 0x0A ∈ between)) := by
  have hinside : hi < source.length := (List.getElem?_eq_some_iff.1 hlast).1
  obtain ⟨before, between, after, hparts⟩ := h.exists_parts hlohi hlo hhi
  have hmem : ∀ e, e ∈ edits ↔ e ∈ before ∨ e ∈ between ∨ e ∈ after := fun e => by
    rw [← (ascending_perm edits).mem_iff, hparts.split, List.mem_append, List.mem_append, or_assoc]
  obtain ⟨output, tail, hout, hrun, htail⟩ := hparts.run_behind h hlohi hlast hsolid' hhi
  -- The edits between the bytes leave a gap that tells of line ends.
  obtain ⟨c, gap, hloc, hc, hrun, htells⟩ := Run.tells [] hsolid' hrun hlohi (Nat.le_refl hi)
    (Nat.le_of_lt hinside) hfirst hsolid hmark
    (fun e he => by
      have he := List.mem_reverse.1 he
      obtain ⟨hstart, hstop⟩ := hparts.between e he
      exact ⟨hstart, hremoved e ((hmem e).2 (.inr (.inl he))) hstart hstop⟩)
    (fun d hd => by
      rw [List.mem_append, List.mem_reverse, List.mem_reverse]
      rcases (hmem d).1 hd with hd | hd | hd
      · exact .inl (.inr hd)
      · exact .inl (.inl hd)
      · exact .inr (Nat.le_of_lt (hparts.after d hd).1))
    fun ends _ => tells_nil source lo hi ends
  obtain ⟨head, rfl, hhead⟩ := hparts.run_before h hlohi hloc hrun hfirst hsolid
  have hne : first ≠ 0x0A := by
    rintro rfl
    exact absurd hsolid (by decide)
  have kept : ∀ {ends : UInt8 → Prop}, Ending source edits lo hi ends →
      0x0A ∈ slice source (lo + 1) hi → ∃ x ∈ slice source (lo + 1) c ++ gap, ends x := by
    intro ends hends hlf
    rcases (htells ends hends).kept lo first (Nat.le_refl lo) hloc hfirst
      (isBlank_of_not_spacing hsolid).1 hne hlf with hlf | ⟨x, hx, hxends⟩
    · exact ⟨_, List.mem_append_left _ hlf, hends.lineFeed⟩
    · exact ⟨x, List.mem_append_right _ hx, hxends⟩
  have invented : 0x0A ∈ slice source (lo + 1) c ++ gap → 0x0A ∈ slice source (lo + 1) hi := by
    intro hlf
    rcases List.mem_append.1 hlf with hlf | hlf
    · exact slice_subset (Nat.le_refl _) hc hlf
    · exact slice_subset hloc (Nat.le_refl _) ((htells _ ending_isLineBreak).invented hlf)
  refine ⟨_, slice source (lo + 1) c ++ gap, hout,
    ⟨head, tail, first, last, hfirst, hlast, ?_, hhead, htail⟩, invented, kept ending_isLineBreak,
    fun hreturns => ⟨fun hlf => ?_, invented⟩⟩
  · rw [List.append_assoc]
  · obtain ⟨x, hx, rfl⟩ := kept (ending_lineFeed hreturns) hlf
    exact hx

end

/-- Two names with a comment over two lines and a comment at the end of a line between them. -/
def twoComments : Bytes := encode "f /* a\n*/\r\n // b\r\ng"

/-- Between the two names a line feed stays. -/
theorem lineFeed_between_twoComments :
    ∃ output between, spliced? twoComments [⟨12, 16, ""⟩, ⟨2, 9, ""⟩] = some output ∧
      IsBetween twoComments [⟨12, 16, ""⟩, ⟨2, 9, ""⟩] 0 18 output between ∧ 0x0A ∈ between := by
  have hspaced : Spaced twoComments [⟨12, 16, ""⟩, ⟨2, 9, ""⟩] := by decide +kernel
  have hfirst : twoComments[0]? = some 0x66 := by decide +kernel
  have hlast : twoComments[18]? = some 0x67 := by decide +kernel
  have hreturns : ∀ i < 18, 0 < i → twoComments[i]? = some 0x0D →
      0x0A ∈ slice twoComments (i + 1) 18 := by decide +kernel
  have hmark : ¬ byteOrderMark <+: twoComments := by decide +kernel
  obtain ⟨output, between, hout, hbetween, -, -, hiff⟩ := lineFeed_between hspaced (by decide)
    hfirst hlast rfl rfl rfl rfl (fun h => absurd h hmark) (by decide)
  refine ⟨output, between, hout, hbetween, (hiff fun i hlo hhi hb _ => ?_).1 (by decide +kernel)⟩
  exact hreturns i hhi hlo hb

/-- **A carriage return alone takes the place of a line feed.** The comment between `f` and `g` has
a line feed, but as the carriage return behind it ends the line, none is put in its place. -/
theorem lineFeed_lost :
    let source := encode "f/*\n*/\rg"
    let edits : List Edit := [⟨1, 6, ""⟩]
    Spaced source edits ∧ source[0]? = some 0x66 ∧ source[7]? = some 0x67 ∧
      isSpacing 0x66 = false ∧ isSpacing 0x67 = false ∧ uncovered edits 0 = true ∧
      uncovered edits 7 = true ∧ ¬ byteOrderMark <+: source ∧ (∀ e ∈ edits, e.isRemoval = true) ∧
      (∀ i < 7, 0 < i → uncovered edits i = true → ∃ b ∈ source[i]?, isSpacing b = true) ∧
      0x0A ∈ slice source 1 7 ∧ spliced? source edits = some (encode "f\rg") ∧
      IsBetween source edits 0 7 (encode "f\rg") (encode "\r") ∧ 0x0A ∉ encode "\r" := by
  refine ⟨by decide +kernel, by decide +kernel, by decide +kernel, rfl, rfl, rfl, rfl,
    by decide +kernel, by decide +kernel, by decide +kernel, by decide +kernel, by decide +kernel,
    ⟨[], [], 0x66, 0x67, by decide +kernel, by decide +kernel, by decide +kernel, by decide +kernel,
      by decide +kernel⟩, by decide +kernel⟩

end ScriptScrub.Edit
