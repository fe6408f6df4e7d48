import ScriptScrub.Proofs.Edit.Splice

/-!
# What becomes of a part of the source

At two positions that lie between edits the output of a run falls into three parts, each of which
is what the run made of one part of the source (`Run.image`). The part in the middle holds, up to
white space and in their order, all bytes of its part of the source that no edit covers
(`solid_kept_sublist`).
-/

namespace ScriptScrub.Edit

open Text (encode)

/-- `image` is what the edits made of the source from `lo` to `hi`, up to white space. -/
def IsImage (source : Bytes) (lo hi : Nat) (edits : List Edit) (image : Bytes) : Prop :=
  solid image = solid (plain source lo hi edits)

section
variable {source : Bytes}

/-- A byte that is no white space is in the image if plain edits leave it. -/
theorem IsImage.mem_iff {lo hi : Nat} {edits : List Edit} {image : Bytes}
    (h : IsImage source lo hi edits image) {b : UInt8} (hb : isSpacing b = false) :
    b ∈ image ↔ b ∈ plain source lo hi edits := by
  have hsolid : ∀ bytes : Bytes, b ∈ solid bytes ↔ b ∈ bytes := fun bytes => by simp [solid, hb]
  rw [← hsolid image, h, hsolid]

/-- Bytes whose solid part falls into two parts do so themselves. -/
theorem exists_of_solid_eq_append {bytes as bs : Bytes} (h : solid bytes = as ++ bs) :
    ∃ xs ys, bytes = xs ++ ys ∧ solid xs = as ∧ solid ys = bs :=
  List.filter_eq_append_iff.1 h

/-- Edits that come one after the other fall into those before and those after a position that
none of them covers. -/
theorem exists_split {edits : List Edit} {x : Nat}
    (hpair : edits.Pairwise fun a b => a.stop ≤ b.start)
    (hx : ∀ e ∈ edits, e.start ≤ e.stop ∧ (e.stop ≤ x ∨ x ≤ e.start)) :
    ∃ before after, edits = before ++ after ∧ (∀ e ∈ before, e.stop ≤ x) ∧
      ∀ e ∈ after, x ≤ e.start := by
  induction edits with
  | nil => exact ⟨[], [], rfl, by simp, by simp⟩
  | cons e es ih =>
      obtain ⟨hnext, hpair⟩ := List.pairwise_cons.1 hpair
      obtain ⟨horder, hside⟩ := hx e List.mem_cons_self
      rcases hside with hside | hside
      · obtain ⟨before, after, rfl, hbefore, hafter⟩ :=
          ih hpair fun d hd => hx d (List.mem_cons_of_mem _ hd)
        exact ⟨e :: before, after, rfl, List.forall_mem_cons.2 ⟨hside, hbefore⟩, hafter⟩
      · refine ⟨[], e :: es, rfl, by simp, List.forall_mem_cons.2 ⟨hside, fun d hd => ?_⟩⟩
        have := hnext d hd
        omega

/-- Edits that come one after the other fall into those before, between and after two positions that
none of them covers. -/
theorem exists_split_between {edits : List Edit} {x y : Nat}
    (hpair : edits.Pairwise fun a b => a.stop ≤ b.start)
    (hsides : ∀ e ∈ edits, e.start ≤ e.stop ∧ (e.stop ≤ x ∨ x ≤ e.start) ∧
      (e.stop ≤ y ∨ y ≤ e.start)) :
    ∃ before between after, edits = before ++ between ++ after ∧ (∀ e ∈ before, e.stop ≤ x) ∧
      (∀ e ∈ between, x ≤ e.start ∧ e.start ≤ e.stop ∧ e.stop ≤ y) ∧ ∀ e ∈ after, y ≤ e.start := by
  obtain ⟨before, rest, rfl, hbefore, hrest⟩ :=
    exists_split hpair fun e he => ⟨(hsides e he).1, (hsides e he).2.1⟩
  have hmem : ∀ e ∈ rest, e ∈ before ++ rest := fun e he => List.mem_append.2 (.inr he)
  obtain ⟨between, after, rfl, hbetween, hafter⟩ :=
    exists_split (List.pairwise_append.1 hpair).2.1 fun e he =>
      ⟨(hsides e (hmem e he)).1, (hsides e (hmem e he)).2.2⟩
  refine ⟨before, between, after, (List.append_assoc ..).symm, hbefore, fun e he => ?_, hafter⟩
  have he' : e ∈ between ++ after := List.mem_append.2 (.inl he)
  exact ⟨hrest e he', (hsides e (hmem e he')).1, hbetween e he⟩

/-- **The output of a run falls apart** at positions between the edits. -/
theorem Run.image {before nested after : List Edit} {lo hi : Nat} {output : Bytes}
    (h : Run source (before ++ nested ++ after).reverse source.length [] output)
    (hlo : lo ≤ hi) (hhi : hi ≤ source.length) (hbefore : ∀ e ∈ before, e.stop ≤ lo)
    (hnested : ∀ e ∈ nested, lo ≤ e.start ∧ e.start ≤ e.stop ∧ e.stop ≤ hi)
    (hafter : ∀ e ∈ after, hi ≤ e.start) :
    ∃ head image tail, output = head ++ image ++ tail ∧ IsImage source 0 lo before head ∧
      IsImage source lo hi nested image ∧ IsImage source hi source.length after tail := by
  have hsolid := h.solid_eq
  have houter : plain source 0 source.length (before ++ nested ++ after) =
      plain source 0 hi (before ++ nested) ++ plain source hi source.length after := by
    refine plain_append source _ _ (Nat.zero_le _) hhi (fun e he => ?_) hafter
    rcases List.mem_append.1 he with he | he
    · exact Nat.le_trans (hbefore e he) hlo
    · exact (hnested e he).2.2
  have hinner : plain source 0 hi (before ++ nested) =
      plain source 0 lo before ++ plain source lo hi nested :=
    plain_append source _ _ (Nat.zero_le _) hlo hbefore fun e he => (hnested e he).1
  rw [List.reverse_reverse, houter, hinner, solid_append, solid_append] at hsolid
  obtain ⟨front, tail, rfl, hfront, htail⟩ :=
    exists_of_solid_eq_append (hsolid.trans (List.append_nil _))
  obtain ⟨head, image, rfl, hhead, himage⟩ := exists_of_solid_eq_append hfront
  exact ⟨head, image, tail, rfl, hhead, himage, htail⟩

end

/-! ## Kept bytes -/

/-- The position is covered by no edit. -/
def uncovered (edits : List Edit) (i : Nat) : Bool :=
  edits.all fun e => decide (i < e.start ∨ e.stop ≤ i)

/-- A position is covered by no edit of two lists if it is by none of either. -/
theorem uncovered_append (as bs : List Edit) (i : Nat) :
    uncovered (as ++ bs) i = (uncovered as i && uncovered bs i) :=
  List.all_append

/-- A position apart from all edits is uncovered. -/
theorem uncovered_eq_true {edits : List Edit} {i : Nat}
    (h : ∀ e ∈ edits, i < e.start ∨ e.stop ≤ i) : uncovered edits i = true :=
  List.all_eq_true.2 fun e he => decide_eq_true (h e he)

/-- Between the edits before and after a range only those in the range can cover a position. -/
theorem uncovered_append_append {before between after : List Edit} {lo hi i : Nat}
    (hbefore : ∀ e ∈ before, e.stop ≤ lo) (hafter : ∀ e ∈ after, hi ≤ e.start) (hlo : lo ≤ i)
    (hhi : i < hi) : uncovered (before ++ between ++ after) i = uncovered between i := by
  have hfirst : uncovered before i = true :=
    uncovered_eq_true fun e he => .inr (Nat.le_trans (hbefore e he) hlo)
  have hlast : uncovered after i = true :=
    uncovered_eq_true fun e he => .inl (Nat.lt_of_lt_of_le hhi (hafter e he))
  rw [uncovered_append, uncovered_append, hfirst, hlast, Bool.true_and, Bool.and_true]

/-- **The bytes that plain edits leave** stand in the source where no edit covers them, or in a
replacement. -/
theorem mem_plain_iff {source : Bytes} {lo hi : Nat} {edits : List Edit} {b : UInt8}
    (hpair : edits.Pairwise fun a b => a.stop ≤ b.start)
    (hin : ∀ e ∈ edits, lo ≤ e.start ∧ e.start ≤ e.stop ∧ e.stop ≤ hi) :
    b ∈ plain source lo hi edits ↔
      (∃ i, lo ≤ i ∧ i < hi ∧ source[i]? = some b ∧ uncovered edits i = true) ∨
        ∃ e ∈ edits, b ∈ encode e.replacement := by
  induction edits generalizing lo with
  | nil => simp [plain, mem_slice_iff, uncovered]
  | cons e es ih =>
      obtain ⟨hstart, horder, hstop⟩ := hin e List.mem_cons_self
      obtain ⟨hnext, hpair⟩ := List.pairwise_cons.1 hpair
      have hin' : ∀ d ∈ es, e.stop ≤ d.start ∧ d.start ≤ d.stop ∧ d.stop ≤ hi := fun d hd =>
        ⟨hnext d hd, (hin d (List.mem_cons_of_mem _ hd)).2⟩
      have hcons : ∀ i, uncovered (e :: es) i = true ↔
          (i < e.start ∨ e.stop ≤ i) ∧ uncovered es i = true := fun i => by
        rw [uncovered, List.all_cons, Bool.and_eq_true, decide_eq_true_eq, uncovered]
      rw [plain, List.mem_append, List.mem_append, ih hpair hin', mem_slice_iff]
      simp only [hcons, List.mem_cons, exists_eq_or_imp]
      constructor
      · rintro ((⟨i, hlo, hhi, hb⟩ | hb) | ⟨i, hlo, hhi, hb, hun⟩ | hb)
        · refine .inl ⟨i, hlo, by omega, hb, .inl hhi, uncovered_eq_true fun d hd => ?_⟩
          have := hin' d hd
          omega
        · exact .inr (.inl hb)
        · exact .inl ⟨i, by omega, hhi, hb, .inr hlo, hun⟩
        · exact .inr (.inr hb)
      · rintro (⟨i, hlo, hhi, hb, hi | hi, hun⟩ | hb | hb)
        · exact .inl (.inl ⟨i, hlo, hi, hb⟩)
        · exact .inr (.inl ⟨i, hi, hhi, hb, hun⟩)
        · exact .inl (.inr hb)
        · exact .inr (.inr hb)

/-- The bytes from `lo` to `hi` that no edit covers, in their order. -/
def kept (source : Bytes) (lo hi : Nat) (edits : List Edit) : Bytes :=
  ((List.range' lo (hi - lo)).filter (uncovered edits)).filterMap (source[·]?)

section
variable {source : Bytes}

/-- Bytes of adjacent ranges are kept one by one. -/
theorem kept_append {lo mid hi : Nat} (edits : List Edit) (hlo : lo ≤ mid) (hhi : mid ≤ hi) :
    kept source lo hi edits = kept source lo mid edits ++ kept source mid hi edits := by
  have hrange : List.range' lo (hi - lo) =
      List.range' lo (mid - lo) ++ List.range' mid (hi - mid) := by
    obtain ⟨d, rfl⟩ := Nat.exists_eq_add_of_le hlo
    rw [Nat.add_sub_cancel_left, List.range'_append_1]
    congr 1
    omega
  rw [kept, hrange, List.filter_append, List.filterMap_append, kept, kept]

/-- The bytes of a range that lies in the source are its slice. -/
theorem filterMap_range' {lo hi : Nat} (hlo : lo ≤ hi) (hhi : hi ≤ source.length) :
    (List.range' lo (hi - lo)).filterMap (source[·]?) = slice source lo hi := by
  obtain ⟨d, rfl⟩ := Nat.exists_eq_add_of_le hlo
  rw [Nat.add_sub_cancel_left]
  induction d with
  | zero => simp
  | succ d ih =>
      have hd : lo + d < source.length := by omega
      rw [← Nat.add_assoc, List.range'_1_concat, List.filterMap_append, ih (by omega) (by omega),
        ← slice_append source (Nat.le_add_right lo d) (Nat.le_succ _)]
      congr 1
      rw [List.filterMap_cons_some (List.getElem?_eq_getElem hd), List.filterMap_nil, slice,
        List.drop_take, Nat.succ_sub (Nat.le_refl _), Nat.sub_self, List.drop_eq_getElem_cons hd,
        List.take_succ_cons, List.take_zero]

/-- No bytes are kept that an edit covers. -/
theorem kept_self {e : Edit} {edits : List Edit} (he : e ∈ edits) :
    kept source e.start e.stop edits = [] := by
  rw [kept, List.filter_eq_nil_iff.2, List.filterMap_nil]
  intro i hi hall
  rw [List.mem_range'_1] at hi
  have := of_decide_eq_true (List.all_eq_true.1 hall e he)
  omega

/-- An edit before a range keeps none of its bytes away. -/
theorem kept_cons {e : Edit} {edits : List Edit} {lo hi : Nat} (he : e.stop ≤ lo) :
    kept source lo hi (e :: edits) = kept source lo hi edits := by
  rw [kept, kept]
  congr 1
  refine List.filter_congr fun i hi => ?_
  rw [List.mem_range'_1] at hi
  rw [uncovered, List.all_cons, decide_eq_true (.inr (by omega)), Bool.true_and, uncovered]

/-- **The bytes that no edit covers** are in what plain edits leave, in their order. -/
theorem kept_sublist_plain {lo hi : Nat} {edits : List Edit} (hlo : lo ≤ hi)
    (hhi : hi ≤ source.length) (hpair : edits.Pairwise fun a b => a.stop ≤ b.start)
    (hin : ∀ e ∈ edits, lo ≤ e.start ∧ e.start ≤ e.stop ∧ e.stop ≤ hi) :
    (kept source lo hi edits).Sublist (plain source lo hi edits) := by
  induction edits generalizing lo with
  | nil =>
      rw [plain, ← filterMap_range' hlo hhi, kept]
      exact List.filter_sublist.filterMap _
  | cons e es ih =>
      obtain ⟨hstart, horder, hstop⟩ := hin e List.mem_cons_self
      obtain ⟨hnext, hpair⟩ := List.pairwise_cons.1 hpair
      rw [kept_append _ hstart (Nat.le_trans horder hstop), kept_append _ horder hstop,
        kept_self List.mem_cons_self, List.nil_append, kept_cons (Nat.le_refl _), plain]
      refine List.Sublist.append ?_ (ih hstop hpair fun d hd => ?_)
      · refine List.Sublist.trans ?_ (List.sublist_append_left _ _)
        rw [← filterMap_range' hstart (by omega), kept]
        exact List.filter_sublist.filterMap _
      · exact ⟨hnext d hd, (hin d (List.mem_cons_of_mem _ hd)).2⟩

/-- **What is made of a part of the source** holds all of its bytes that no edit covers, in their
order and apart from white space. -/
theorem solid_kept_sublist {lo hi : Nat} {edits : List Edit} {image : Bytes}
    (h : IsImage source lo hi edits image) (hlo : lo ≤ hi) (hhi : hi ≤ source.length)
    (hpair : edits.Pairwise fun a b => a.stop ≤ b.start)
    (hin : ∀ e ∈ edits, lo ≤ e.start ∧ e.start ≤ e.stop ∧ e.stop ≤ hi) :
    (solid (kept source lo hi edits)).Sublist image := by
  have hkept : (solid (kept source lo hi edits)).Sublist (solid (plain source lo hi edits)) :=
    (kept_sublist_plain hlo hhi hpair hin).filter _
  rw [← h] at hkept
  exact hkept.trans List.filter_sublist

end

end ScriptScrub.Edit
