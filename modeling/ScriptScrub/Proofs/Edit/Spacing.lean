import ScriptScrub.Proofs.Edit.Image

/-!
# Edits in any order

Edits that do not overlap are put into a source byte for byte (`replaced`): a replacement stands at
the start of its range, and a byte that no edit covers stays. That is what plain edits leave once
they are sorted (`replaced_eq_plain`), so splicing leaves it, up to white space, in whatever order
the edits are listed (`spliced?_solid`).
-/

namespace ScriptScrub.Edit

open Text (encode)

/-! ## Spaced edits -/

/-- The edits lie in the source, are not empty and do not overlap, and from the last byte of one to
the start of the next some byte is no blank. -/
structure Spaced (source : Bytes) (edits : List Edit) : Prop where
  inside : ∀ e ∈ edits, e.start < e.stop ∧ e.stop ≤ source.length
  apart : edits.Pairwise fun a b => a.stop ≤ b.start ∨ b.stop ≤ a.start
  separated : ∀ a ∈ edits, ∀ b ∈ edits, a.stop ≤ b.start →
    (∀ d ∈ edits, ¬ (a.stop ≤ d.start ∧ d.stop ≤ b.start)) → Separated source a b

instance (source : Bytes) (edits : List Edit) : Decidable (Spaced source edits) :=
  decidable_of_iff ((∀ e ∈ edits, e.start < e.stop ∧ e.stop ≤ source.length) ∧
    (edits.Pairwise fun a b => a.stop ≤ b.start ∨ b.stop ≤ a.start) ∧
    ∀ a ∈ edits, ∀ b ∈ edits, a.stop ≤ b.start →
      (∀ d ∈ edits, ¬ (a.stop ≤ d.start ∧ d.stop ≤ b.start)) → Separated source a b)
    ⟨fun ⟨h₁, h₂, h₃⟩ => ⟨h₁, h₂, h₃⟩, fun ⟨h₁, h₂, h₃⟩ => ⟨h₁, h₂, h₃⟩⟩

/-- The edits by ascending start. -/
def ascending (edits : List Edit) : List Edit := edits.mergeSort fun a b => a.start ≤ b.start

/-- Sorting edits keeps them. -/
theorem ascending_perm (edits : List Edit) : (ascending edits).Perm edits :=
  List.mergeSort_perm _ _

section
variable {source : Bytes} {edits : List Edit}

/-- Spaced edits are spaced in any order. -/
theorem Spaced.perm {listed : List Edit} (h : Spaced source edits) (hlisted : listed.Perm edits) :
    Spaced source listed where
  inside e he := h.inside e (hlisted.mem_iff.1 he)
  apart := h.apart.perm hlisted.symm fun hab => hab.symm
  separated a ha b hb hab hnone :=
    h.separated a (hlisted.mem_iff.1 ha) b (hlisted.mem_iff.1 hb) hab fun d hd =>
      hnone d (hlisted.mem_iff.2 hd)

/-- Spaced edits come one after the other once they are sorted. -/
theorem Spaced.pairwise_ascending (h : Spaced source edits) :
    (ascending edits).Pairwise fun a b => a.stop ≤ b.start := by
  have hsorted : (ascending edits).Pairwise fun a b => decide (a.start ≤ b.start) = true := by
    refine List.pairwise_mergeSort ?_ ?_ edits
    · intro a b c hab hbc
      rw [decide_eq_true_eq] at hab hbc ⊢
      omega
    · intro a b
      rw [Bool.or_eq_true, decide_eq_true_eq, decide_eq_true_eq]
      omega
  have hspaced := h.perm (ascending_perm edits)
  refine (hsorted.and hspaced.apart).imp_of_mem ?_
  rintro a b ha hb ⟨hle, hab⟩
  rw [decide_eq_true_eq] at hle
  have := hspaced.inside b hb
  omega

/-- Spaced edits are separated from one to the next once they are sorted. -/
theorem Spaced.isChain_ascending (h : Spaced source edits) :
    (ascending edits).IsChain (Separated source) := by
  have hspaced := h.perm (ascending_perm edits)
  refine List.isChain_iff_forall_rel_of_append_cons_cons.2 fun {a b before after} heq => ?_
  have hpair := h.pairwise_ascending
  rw [heq] at hpair hspaced
  obtain ⟨-, hlast, hbefore⟩ := List.pairwise_append.1 hpair
  obtain ⟨hafter, hlast⟩ := List.pairwise_cons.1 hlast
  obtain ⟨hlast, -⟩ := List.pairwise_cons.1 hlast
  have hab := hafter b List.mem_cons_self
  have ha : a ∈ before ++ a :: b :: after := by simp
  have hb : b ∈ before ++ a :: b :: after := by simp
  refine hspaced.separated a ha b hb hab fun d hd => ?_
  have := hspaced.inside d hd
  have := hspaced.inside a ha
  have := hspaced.inside b hb
  simp only [List.mem_append, List.mem_cons] at hd
  rcases hd with hd | rfl | rfl | hd
  · have := hbefore d hd a List.mem_cons_self
    omega
  · omega
  · omega
  · have := hlast d hd
    omega

/-- An edit ends before the blanks in front of any edit behind it. -/
theorem Spaced.stop_le_leftOf (h : Spaced source edits) {a b : Edit} (ha : a ∈ edits)
    (hb : b ∈ edits) (hab : a.stop ≤ b.start) : a.stop ≤ leftOf source b.start := by
  induction hn : b.start - a.stop using Nat.strong_induction_on generalizing a with
  | _ n ih =>
      have hin := h.inside b hb
      by_cases hbetween : ∃ d ∈ edits, a.stop ≤ d.start ∧ d.stop ≤ b.start
      · obtain ⟨d, hd, had, hdb⟩ := hbetween
        have := h.inside d hd
        have := ih _ (by omega) hd hdb rfl
        omega
      · have hsep := h.separated a ha b hb hab fun d hd hbetween' => hbetween ⟨d, hd, hbetween'⟩
        exact hsep.stop_le_leftOf (by omega)

/-- Spaced edits lie in the source. -/
theorem Spaced.fits (h : Spaced source edits) : ∀ e ∈ edits, Fits source e := fun e he =>
  ⟨Nat.le_of_lt (h.inside e he).1, (h.inside e he).2⟩

/-- **Spaced edits are spliced** by a run over all of the source, in whatever order they are
listed. -/
theorem Spaced.exists_run (h : Spaced source edits) :
    ∃ output, (∀ listed : List Edit, listed.Perm edits → spliced? source listed = some output) ∧
      Run source (ascending edits).reverse source.length [] output := by
  have hperm := ascending_perm edits
  obtain ⟨output, hout, hrun⟩ := exists_spliced_perm (h.perm hperm).fits h.isChain_ascending
  exact ⟨output, fun listed hlisted => hout listed (hlisted.trans hperm.symm), hrun⟩

end

/-! ## Replacing byte for byte -/

/-- What stands for the position `i`: the replacement of the edit that starts there, and the byte if
no edit covers it. -/
def piece (source : Bytes) (edits : List Edit) (i : Nat) : Bytes :=
  (edits.filter (·.start = i)).flatMap (fun e => encode e.replacement) ++
    if uncovered edits i then source[i]?.toList else []

/-- The source from `lo` to `hi` with every edit replaced. -/
def replaced (source : Bytes) (lo hi : Nat) (edits : List Edit) : Bytes :=
  (List.range' lo (hi - lo)).flatMap (piece source edits)

section
variable {source : Bytes} {edits : List Edit}

/-- At most one of some spaced edits starts at a position. -/
theorem Spaced.filter_start (h : Spaced source edits) (i : Nat) :
    edits.filter (·.start = i) = [] ∨ ∃ e, edits.filter (·.start = i) = [e] := by
  have hpair : (edits.filter (·.start = i)).Pairwise fun _ _ => False := by
    refine (h.apart.filter fun e => decide (e.start = i)).imp_of_mem ?_
    intro a b ha hb hab
    obtain ⟨ha, hai⟩ := List.mem_filter.1 ha
    obtain ⟨hb, hbi⟩ := List.mem_filter.1 hb
    rw [decide_eq_true_eq] at hai hbi
    have := h.inside a ha
    have := h.inside b hb
    omega
  generalize edits.filter (·.start = i) = starting at hpair ⊢
  match starting, hpair with
  | [], _ => exact .inl rfl
  | [e], _ => exact .inr ⟨e, rfl⟩
  | a :: b :: _, hpair => exact ((List.pairwise_cons.1 hpair).1 b List.mem_cons_self).elim

/-- What stands for a position does not depend on the order of the edits. -/
theorem Spaced.piece_perm {listed : List Edit} (h : Spaced source edits)
    (hlisted : listed.Perm edits) (i : Nat) : piece source listed i = piece source edits i := by
  have huncovered : uncovered listed i = uncovered edits i := hlisted.all_eq
  have hfilter : listed.filter (·.start = i) = edits.filter (·.start = i) := by
    have hperm := hlisted.filter fun e => decide (e.start = i)
    rcases h.filter_start i with heq | ⟨e, heq⟩
    · rw [heq] at hperm ⊢
      exact List.perm_nil.1 hperm
    · rw [heq] at hperm ⊢
      exact List.perm_singleton.1 hperm
  rw [piece, piece, huncovered, hfilter]

/-- Adjacent ranges are replaced one by one. -/
theorem replaced_append {lo mid hi : Nat} (hlo : lo ≤ mid) (hhi : mid ≤ hi) :
    replaced source lo hi edits = replaced source lo mid edits ++ replaced source mid hi edits := by
  obtain ⟨d, rfl⟩ := Nat.exists_eq_add_of_le hlo
  have hrange : List.range' lo (hi - lo) =
      List.range' lo (lo + d - lo) ++ List.range' (lo + d) (hi - (lo + d)) := by
    rw [Nat.add_sub_cancel_left, List.range'_append_1]
    congr 1
    omega
  rw [replaced, hrange, List.flatMap_append, replaced, replaced]

/-- The edits of a list that lie apart from a position do not matter there. -/
theorem piece_append {as : List Edit} {i : Nat}
    (has : ∀ a ∈ as, a.start < a.stop ∧ (i < a.start ∨ a.stop ≤ i)) (bs : List Edit) :
    piece source (as ++ bs) i = piece source bs i ∧
      piece source (bs ++ as) i = piece source bs i := by
  have hfilter : as.filter (·.start = i) = [] := by
    refine List.filter_eq_nil_iff.2 fun a ha => ?_
    have := has a ha
    rw [decide_eq_true_eq]
    omega
  have huncovered : uncovered as i = true := uncovered_eq_true fun a ha => (has a ha).2
  constructor
  · rw [piece, List.filter_append, hfilter, uncovered_append, huncovered, List.nil_append,
      Bool.true_and, piece]
  · rw [piece, List.filter_append, hfilter, uncovered_append, huncovered, List.append_nil,
      Bool.and_true, piece]

/-- Edits that stand for the same at all positions of a range are replaced alike. -/
theorem replaced_congr {edits' : List Edit} {lo hi : Nat}
    (h : ∀ i, lo ≤ i → i < hi → piece source edits i = piece source edits' i) :
    replaced source lo hi edits = replaced source lo hi edits' := by
  refine List.flatMap_congr fun i hi => ?_
  rw [List.mem_range'_1] at hi
  exact h i hi.1 (by omega)

/-- Where there are no edits, nothing is replaced. -/
theorem replaced_nil {lo hi : Nat} (hlo : lo ≤ hi) (hhi : hi ≤ source.length) :
    replaced source lo hi [] = slice source lo hi := by
  rw [← filterMap_range' hlo hhi, List.filterMap_eq_flatMap_toList]
  rfl

/-- The range of an edit is replaced by its replacement. -/
theorem replaced_singleton {e : Edit} (he : e.start < e.stop) :
    replaced source e.start e.stop [e] = encode e.replacement := by
  have covered : ∀ i, e.start ≤ i → i < e.stop → uncovered [e] i = false := fun i hlo hhi =>
    List.all_eq_false.2 ⟨e, List.mem_singleton_self e, by rw [decide_eq_true_eq]; omega⟩
  have hfirst : piece source [e] e.start = encode e.replacement := by
    simp [piece, covered e.start (Nat.le_refl _) he]
  have hrest :
      (List.range' (e.start + 1) (e.stop - e.start - 1)).flatMap (piece source [e]) = [] := by
    refine List.flatMap_eq_nil_iff.2 fun i hi => ?_
    rw [List.mem_range'_1] at hi
    have hne : e.start ≠ i := by omega
    simp [piece, covered i (by omega) (by omega), hne]
  have hlen : e.stop - e.start = e.stop - e.start - 1 + 1 := by omega
  rw [replaced, hlen, List.range'_succ, List.flatMap_cons, hfirst, hrest, List.append_nil]

/-- **Plain edits replace byte for byte.** -/
theorem replaced_eq_plain {lo hi : Nat} (hlo : lo ≤ hi) (hhi : hi ≤ source.length)
    (hpair : edits.Pairwise fun a b => a.stop ≤ b.start)
    (hin : ∀ e ∈ edits, lo ≤ e.start ∧ e.start < e.stop ∧ e.stop ≤ hi) :
    replaced source lo hi edits = plain source lo hi edits := by
  induction edits generalizing lo with
  | nil => exact replaced_nil hlo hhi
  | cons e es ih =>
      obtain ⟨hstart, hne, hstop⟩ := hin e List.mem_cons_self
      obtain ⟨hnext, hpair⟩ := List.pairwise_cons.1 hpair
      have hin' : ∀ d ∈ es, e.stop ≤ d.start ∧ d.start < d.stop ∧ d.stop ≤ hi := fun d hd =>
        ⟨hnext d hd, (hin d (List.mem_cons_of_mem _ hd)).2⟩
      have hbefore : replaced source lo e.start (e :: es) = slice source lo e.start := by
        rw [← replaced_nil hstart (by omega)]
        refine replaced_congr fun i _ hi => ?_
        refine (piece_append (fun d hd => ?_) []).2
        rcases List.mem_cons.1 hd with rfl | hd
        · omega
        · have := hin' d hd
          omega
      have hat : replaced source e.start e.stop (e :: es) = encode e.replacement := by
        refine (replaced_congr fun i _ hi => ?_).trans (replaced_singleton hne)
        refine (piece_append (fun d hd => ?_) [e]).2
        have := hin' d hd
        omega
      have hafter : replaced source e.stop hi (e :: es) = replaced source e.stop hi es := by
        refine replaced_congr fun i hi _ => ?_
        have hleft : ∀ d ∈ [e], d.start < d.stop ∧ (i < d.start ∨ d.stop ≤ i) := fun d hd =>
          List.mem_singleton.1 hd ▸ ⟨hne, .inr hi⟩
        exact (piece_append hleft es).1
      rw [replaced_append hstart (by omega), replaced_append (Nat.le_of_lt hne) hstop, hbefore, hat,
        hafter, ih hstop hpair hin', plain, List.append_assoc]

/-- Between two positions only the edits there are replaced. -/
theorem replaced_between {before between after : List Edit} {lo hi : Nat}
    (hne : ∀ e ∈ before ++ between ++ after, e.start < e.stop) (hbefore : ∀ e ∈ before, e.stop ≤ lo)
    (hafter : ∀ e ∈ after, hi ≤ e.start) :
    replaced source lo hi (before ++ between ++ after) = replaced source lo hi between := by
  refine replaced_congr fun i hlo hhi => ?_
  have hleft : ∀ e ∈ before, e.start < e.stop ∧ (i < e.start ∨ e.stop ≤ i) := fun e he =>
    ⟨hne e (by simp [he]), .inr (Nat.le_trans (hbefore e he) hlo)⟩
  have hright : ∀ e ∈ after, e.start < e.stop ∧ (i < e.start ∨ e.stop ≤ i) := fun e he =>
    ⟨hne e (by simp [he]), .inl (Nat.lt_of_lt_of_le hhi (hafter e he))⟩
  rw [(piece_append hright _).2, (piece_append hleft _).1]

/-- The order of spaced edits does not matter for replacing them. -/
theorem Spaced.replaced_ascending (h : Spaced source edits) (lo hi : Nat) :
    replaced source lo hi (ascending edits) = replaced source lo hi edits :=
  replaced_congr fun i _ _ => h.piece_perm (ascending_perm edits) i

/-- Between two positions of spaced edits, the edits there are put in plainly. -/
theorem Spaced.replaced_eq_plain (h : Spaced source edits) {before between after : List Edit}
    {lo hi : Nat} (hsplit : ascending edits = before ++ between ++ after) (hlo : lo ≤ hi)
    (hhi : hi ≤ source.length) (hbefore : ∀ e ∈ before, e.stop ≤ lo)
    (hbetween : ∀ e ∈ between, lo ≤ e.start ∧ e.stop ≤ hi) (hafter : ∀ e ∈ after, hi ≤ e.start) :
    replaced source lo hi edits = plain source lo hi between := by
  have hspaced := h.perm (ascending_perm edits)
  have hpair := h.pairwise_ascending
  rw [hsplit] at hspaced hpair
  have hpair := (List.pairwise_append.1 (List.pairwise_append.1 hpair).1).2.1
  rw [← h.replaced_ascending, hsplit,
    replaced_between (fun e he => (hspaced.inside e he).1) hbefore hafter]
  refine Edit.replaced_eq_plain hlo hhi hpair fun e he =>
    ⟨(hbetween e he).1, (hspaced.inside e ?_).1, (hbetween e he).2⟩
  exact List.mem_append_left _ (List.mem_append_right _ he)

/-- At a position that no edit covers stands the byte. -/
theorem Spaced.replaced_of_uncovered (h : Spaced source edits) {i : Nat} {b : UInt8}
    (hi : uncovered edits i = true) (hb : source[i]? = some b) :
    replaced source i (i + 1) edits = [b] := by
  have hapart : ∀ e ∈ edits, e.start < e.stop ∧ (i < e.start ∨ e.stop ≤ i) := fun e he =>
    ⟨(h.inside e he).1, of_decide_eq_true (List.all_eq_true.1 hi e he)⟩
  have hpiece : piece source edits i = source[i]?.toList := (piece_append hapart []).2
  rw [replaced, Nat.add_sub_cancel_left, List.range'_one, List.flatMap_singleton, hpiece, hb]
  rfl

/-- **Splicing replaces byte for byte**, up to white space, in whatever order the edits are
listed. -/
theorem spliced?_solid (h : Spaced source edits) :
    ∃ output, (∀ listed : List Edit, listed.Perm edits → spliced? source listed = some output) ∧
      solid output = solid (replaced source 0 source.length edits) := by
  obtain ⟨output, hout, hrun⟩ := h.exists_run
  refine ⟨output, hout, ?_⟩
  have hspaced := h.perm (ascending_perm edits)
  have hplain :
      replaced source 0 source.length edits = plain source 0 source.length (ascending edits) :=
    h.replaced_eq_plain (List.append_nil ([] ++ ascending edits)).symm (Nat.zero_le _)
      (Nat.le_refl _) (by simp) (fun e he => ⟨Nat.zero_le _, (hspaced.inside e he).2⟩) (by simp)
  have hsolid := hrun.solid_eq
  rw [List.reverse_reverse] at hsolid
  rw [hplain]
  exact hsolid.trans (List.append_nil _)

end

/-- Two removals and a replacement that are listed in no order. -/
theorem spliced?_solid_call :
    let source := encode "f(/* x */ 1); // y\nlog(2)\n"
    let edits : List Edit := [⟨14, 18, ""⟩, ⟨19, 25, "void 0"⟩, ⟨2, 9, ""⟩]
    Spaced source edits ∧ ∃ output,
      (∀ listed : List Edit, listed.Perm edits → spliced? source listed = some output) ∧
      solid output = encode "f(1);void0" := by
  have hspaced : Spaced (encode "f(/* x */ 1); // y\nlog(2)\n")
      [⟨14, 18, ""⟩, ⟨19, 25, "void 0"⟩, ⟨2, 9, ""⟩] := by decide +kernel
  obtain ⟨output, hout, hsolid⟩ := spliced?_solid hspaced
  exact ⟨hspaced, output, hout, hsolid.trans (by decide +kernel)⟩

end ScriptScrub.Edit
