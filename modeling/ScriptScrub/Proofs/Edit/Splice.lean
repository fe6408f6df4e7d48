import Mathlib.Data.List.Chain
import Mathlib.Data.List.Nodup
import ScriptScrub.Proofs.Edit.Removal
import ScriptScrub.Proofs.Text.Utf8

/-!
# Splicing

Edits are spliced into the buffer from the last to the first. Between two splices the buffer is the
source up to some position, and then a tail that no later splice touches. A `Run` is the splicing
read in this way; it never fails if the edits are separated (`exists_run`), that is if between the
start of an edit's last byte and the start of the next edit some byte is no blank, where the
widening of the next one stops.

What a run leaves is, up to white space, the source with the edits put in plainly (`plain`,
`spliced?_eq_some`); and it is again a text if the edits lie between characters (`Run.isText`).
-/

namespace ScriptScrub.Edit

open Text (IsText OnBoundary encode)

/-! ## Edits that do not touch -/

/-- The edit lies in the source. -/
structure Fits (source : Bytes) (e : Edit) : Prop where
  ordered : e.start ≤ e.stop
  inside : e.stop ≤ source.length

/-- The last byte of `a` or some byte between `a` and `b` is no blank. -/
def Separated (source : Bytes) (a b : Edit) : Prop :=
  ∃ i byte, a.start ≤ i ∧ a.stop ≤ i + 1 ∧ i < b.start ∧ source[i]? = some byte ∧
    isBlank byte = false

instance (source : Bytes) (a b : Edit) : Decidable (Separated source a b) :=
  decidable_of_iff (∃ i ∈ List.range b.start, a.start ≤ i ∧ a.stop ≤ i + 1 ∧
    ∃ byte ∈ source[i]?, isBlank byte = false)
    ⟨fun ⟨i, hi, h₁, h₂, byte, h₃, h₄⟩ => ⟨i, byte, h₁, h₂, List.mem_range.1 hi, h₃, h₄⟩,
      fun ⟨i, byte, h₁, h₂, hi, h₃, h₄⟩ => ⟨i, List.mem_range.2 hi, h₁, h₂, byte, h₃, h₄⟩⟩

section
variable {source : Bytes} {a b : Edit}

/-- Separated edits begin one after the other. -/
theorem Separated.start_lt (h : Separated source a b) : a.start < b.start := by
  obtain ⟨i, byte, hi, -, hi', -⟩ := h
  exact Nat.lt_of_le_of_lt hi hi'

/-- **The widening of an edit stops** behind the one that it is separated from. -/
theorem Separated.stop_le_leftOf (h : Separated source a b) (hb : b.start ≤ source.length) :
    a.stop ≤ leftOf source b.start := by
  obtain ⟨i, byte, -, hstop, hi, hbyte, hblank⟩ := h
  have := lt_leftOf hbyte hblank hi hb
  omega

/-- The edits of a separated chain begin one after the other. -/
theorem pairwise_start_of_isChain {edits : List Edit} (h : edits.IsChain (Separated source)) :
    edits.Pairwise fun a b => a.start < b.start := by
  have hstarts : (edits.map Edit.start).IsChain (· < ·) :=
    List.isChain_map_of_isChain Edit.start (fun _ _ hab => hab.start_lt) h
  exact List.pairwise_map.1 (List.isChain_iff_pairwise.1 hstarts)

/-- Edits that begin one after the other are applied in reverse, in whatever order they are
listed. -/
theorem lastFirst_eq_reverse {edits listed : List Edit} (hlisted : listed.Perm edits)
    (h : edits.Pairwise fun a b => a.start < b.start) : lastFirst listed = edits.reverse := by
  have hinj : ∀ a ∈ edits, ∀ b ∈ edits, a.start = b.start → a = b := by
    have hnodup : (edits.map Edit.start).Nodup :=
      List.pairwise_map.2 (h.imp fun hab => Nat.ne_of_lt hab)
    exact fun a ha b hb => List.inj_on_of_nodup_map hnodup ha hb
  have hperm : (lastFirst listed).Perm edits := (List.mergeSort_perm _ _).trans hlisted
  have hsorted : (lastFirst listed).Pairwise fun a b => decide (b.start ≤ a.start) = true := by
    refine List.pairwise_mergeSort ?_ ?_ listed
    · intro a b c hab hbc
      rw [decide_eq_true_eq] at hab hbc ⊢
      omega
    · intro a b
      rw [Bool.or_eq_true, decide_eq_true_eq, decide_eq_true_eq]
      omega
  have hreverse : edits.reverse.Pairwise fun a b => decide (b.start ≤ a.start) = true :=
    List.pairwise_reverse.2 (h.imp fun hab => decide_eq_true (Nat.le_of_lt hab))
  refine List.Perm.eq_of_pairwise (fun a b ha hb hab hba => ?_) hsorted hreverse
    (hperm.trans (List.reverse_perm _).symm)
  rw [decide_eq_true_eq] at hab hba
  exact hinj a (hperm.mem_iff.1 ha) b (List.mem_reverse.1 hb) (by omega)

end

/-! ## One splice of a run -/

/-- One splice of a run: it turns the source up to `c` followed by `tail` into the source up to
`c'` followed by `tail'`. White space at the front of what followed the edit is gone, and what was
put in place of it is the replacement, or white space if the edit is a removal, which leaves tidy
text. -/
structure Step (source : Bytes) (e : Edit) (c : Nat) (tail : Bytes) (c' : Nat) (tail' : Bytes) :
    Prop where
  left : leftOf source e.start ≤ c'
  start : c' ≤ e.start
  parts : ∃ put gone rest, tail' = put ++ rest ∧ slice source e.stop c ++ tail = gone ++ rest ∧
    (∀ b ∈ gone, isSpacing b = true) ∧
    (put = encode e.replacement ∨ encode e.replacement = [] ∧ ∀ b ∈ put, isSpacing b = true)
  removal : e.isRemoval = true → ∃ s : Span, s.Tidies (source.take c ++ tail) e.start e.stop ∧
    c' = s.start ∧ tail' = s.replacement ++ (source.take c ++ tail).drop s.stop

/-- The replacement of a removal has no bytes. -/
theorem encode_of_isRemoval {e : Edit} (h : e.isRemoval = true) : encode e.replacement = [] := by
  rw [isRemoval, String.isEmpty_iff] at h
  rw [h]
  rfl

/-- The replacement of an edit that is no removal has bytes. -/
theorem encode_ne_nil {e : Edit} (h : e.isRemoval = false) : encode e.replacement ≠ [] := by
  rw [isRemoval, Bool.eq_false_iff, ne_eq, String.isEmpty_iff, ← String.toList_eq_nil_iff] at h
  obtain ⟨c, cs, heq⟩ := List.exists_cons_of_ne_nil h
  obtain ⟨first, tails, hfirst, -⟩ := Text.encodeCodePoint_eq (Text.char_lt c)
  rw [encode, heq, Text.encodeChars_cons, hfirst]
  exact List.cons_ne_nil _ _

section
variable {source : Bytes} {e : Edit} {c : Nat} (tail : Bytes)

/-- The buffer of a run from the start of the tail on. -/
theorem drop_buffer (hc : c ≤ source.length) {i : Nat} (hi : i ≤ c) :
    (source.take c ++ tail).drop i = slice source i c ++ tail := by
  have hlen : (source.take c).length = c := List.length_take_of_le hc
  rw [List.drop_append_of_le_length (by omega), slice]

/-- The buffer of a run up to a position of the source. -/
theorem take_buffer (hc : c ≤ source.length) {i : Nat} (hi : i ≤ c) :
    (source.take c ++ tail).take i = source.take i := by
  have hlen : (source.take c).length = c := List.length_take_of_le hc
  rw [List.take_append_of_le_length (by omega), List.take_take, Nat.min_eq_left hi]

/-- **An edit of the source can be spliced** as long as it lies before the tail. -/
theorem exists_step (he : e.start ≤ e.stop) (hstop : e.stop ≤ c) (hc : c ≤ source.length) :
    ∃ s c' tail', e.span (source.take c ++ tail) = some s ∧
      s.splice (source.take c ++ tail) = source.take c' ++ tail' ∧
      Step source e c tail c' tail' := by
  by_cases hrem : e.isRemoval = true
  · have hlen : e.stop ≤ (source.take c ++ tail).length := by
      rw [List.length_append, List.length_take_of_le hc]
      omega
    obtain ⟨s, hs, htidies⟩ := removalSpan_eq_some he hlen
    have hremoves := htidies.removes hlen
    have hleft := hremoves.leftOf_le
    rw [leftOf_congr (take_buffer tail hc (Nat.le_trans he hstop))] at hleft
    have hstart := hremoves.start_le
    refine ⟨s, s.start, _, by rw [span, if_pos hrem, hs], ?_, hleft, hstart,
      ⟨s.replacement, slice (source.take c ++ tail) e.stop s.stop,
        (source.take c ++ tail).drop s.stop, rfl, ?_, hremoves.taken,
        .inr ⟨encode_of_isRemoval hrem, hremoves.left⟩⟩,
      fun _ => ⟨s, htidies, rfl, rfl⟩⟩
    · rw [hremoves.splice he, take_buffer tail hc (by omega)]
    · rw [← drop_buffer tail hc hstop, slice_append_drop hremoves.le_stop]
  · refine ⟨_, e.start, encode e.replacement ++ (slice source e.stop c ++ tail),
      by rw [span, if_neg hrem], ?_, leftOf_le _ _, Nat.le_refl _,
      ⟨_, [], _, rfl, rfl, by simp, .inl rfl⟩, fun h => absurd h hrem⟩
    have hstart : e.start ≤ c := Nat.le_trans he hstop
    rw [Span.splice, take_buffer tail hc hstart, Nat.max_eq_right he, drop_buffer tail hc hstop,
      List.append_assoc]

end

/-! ## Runs -/

/-- Splicing edits, each of them before the last one, into the source up to `c` followed by a
tail. -/
inductive Run (source : Bytes) : List Edit → Nat → Bytes → Bytes → Prop where
  | done {c : Nat} {tail : Bytes} : Run source [] c tail (source.take c ++ tail)
  | step {e : Edit} {es : List Edit} {c c' : Nat} {tail tail' output : Bytes}
      (hfits : Fits source e) (hstop : e.stop ≤ c) (h : Step source e c tail c' tail')
      (hrun : Run source es c' tail' output) : Run source (e :: es) c tail output

section
variable {source : Bytes}

/-- **Separated edits can be spliced**, the last one first. -/
theorem exists_run {es : List Edit} {c : Nat} (tail : Bytes) (hfits : ∀ e ∈ es, Fits source e)
    (hsep : es.IsChain fun b a => Separated source a b) (hc : c ≤ source.length)
    (hhead : ∀ e ∈ es.head?, e.stop ≤ c) :
    ∃ output, spliceEach es (source.take c ++ tail) = some output ∧
      Run source es c tail output := by
  induction es generalizing c tail with
  | nil => exact ⟨_, rfl, .done⟩
  | cons e es ih =>
      have hfit := hfits e List.mem_cons_self
      have hstop := hhead e rfl
      obtain ⟨s, c', tail', hspan, hsplice, hstep⟩ := exists_step tail hfit.ordered hstop hc
      obtain ⟨hnext, hsep⟩ := List.isChain_cons.1 hsep
      have := hfit.ordered
      have := hfit.inside
      have := hstep.start
      have hhead' : ∀ d ∈ es.head?, d.stop ≤ c' := fun d hd =>
        Nat.le_trans ((hnext d hd).stop_le_leftOf (by omega)) hstep.left
      obtain ⟨output, hout, hrun⟩ := ih tail'
        (fun d hd => hfits d (List.mem_cons_of_mem _ hd)) hsep (by omega) hhead'
      refine ⟨output, ?_, .step hfit hstop hstep hrun⟩
      rw [spliceEach, hspan, Option.bind_some, hsplice, hout]

/-- The edits of a run lie before the tail. -/
theorem Run.stop_le {es : List Edit} {c : Nat} {tail output : Bytes}
    (h : Run source es c tail output) : ∀ e ∈ es, e.stop ≤ c := by
  induction h with
  | done => exact fun _ he => absurd he List.not_mem_nil
  | @step e es c c' tail tail' output hfits hstop hstep _ ih =>
      intro d hd
      rcases List.mem_cons.1 hd with rfl | hd
      · exact hstop
      · have := ih d hd
        have := hstep.start
        have := hfits.ordered
        omega

end

/-! ## What a run leaves, up to white space -/

/-- What is left of some bytes without their white space. -/
def solid (bytes : Bytes) : Bytes := bytes.filter fun b => !isSpacing b

/-- The bytes from `lo` to `hi` with edits of ascending start put in plainly. -/
def plain (source : Bytes) : Nat → Nat → List Edit → Bytes
  | lo, hi, [] => slice source lo hi
  | lo, hi, e :: es => slice source lo e.start ++ encode e.replacement ++ plain source e.stop hi es

section
variable {source : Bytes}

/-- The parts of some bytes lose their white space one by one. -/
theorem solid_append (as bs : Bytes) : solid (as ++ bs) = solid as ++ solid bs :=
  List.filter_append ..

/-- Nothing is left of white space. -/
theorem solid_eq_nil {bytes : Bytes} (h : ∀ b ∈ bytes, isSpacing b = true) : solid bytes = [] := by
  rw [solid, List.filter_eq_nil_iff]
  intro b hb
  rw [h b hb]
  decide

/-- The last edit is followed by plain source. -/
theorem plain_concat (lo hi : Nat) (es : List Edit) (e : Edit) :
    plain source lo hi (es ++ [e]) =
      plain source lo e.start es ++ encode e.replacement ++ slice source e.stop hi := by
  induction es generalizing lo with
  | nil => rfl
  | cons d es ih => simp only [List.cons_append, plain, ih, List.append_assoc]

/-- **Plain edits fall apart** at a position between two of them. -/
theorem plain_append (source : Bytes) {lo mid hi : Nat} (as bs : List Edit) (hlo : lo ≤ mid)
    (hhi : mid ≤ hi) (has : ∀ a ∈ as, a.stop ≤ mid) (hbs : ∀ b ∈ bs, mid ≤ b.start) :
    plain source lo hi (as ++ bs) = plain source lo mid as ++ plain source mid hi bs := by
  induction as generalizing lo with
  | nil =>
      cases bs with
      | nil => exact (slice_append source hlo hhi).symm
      | cons b bs =>
          simp only [List.nil_append, plain, ← List.append_assoc]
          rw [slice_append source hlo (hbs b List.mem_cons_self)]
  | cons a as ih =>
      simp only [List.cons_append, plain, List.append_assoc]
      rw [ih (has a List.mem_cons_self) fun a ha => has a (List.mem_cons_of_mem _ ha)]

/-- What one splice of a run does to the tail, up to white space. -/
theorem Step.solid_tail {e : Edit} {c c' : Nat} {tail tail' : Bytes}
    (h : Step source e c tail c' tail') :
    solid tail' = solid (encode e.replacement ++ slice source e.stop c) ++ solid tail := by
  obtain ⟨put, gone, rest, rfl, hrest, hgone, hput⟩ := h.parts
  have hput : solid put = solid (encode e.replacement) := by
    rcases hput with rfl | ⟨henc, hput⟩
    · rfl
    · rw [henc, solid_eq_nil hput]
      rfl
  have hrest := congrArg solid hrest
  rw [solid_append, solid_append, solid_eq_nil hgone, List.nil_append] at hrest
  rw [solid_append, solid_append, hput, ← hrest, List.append_assoc]

/-- What one splice of a run takes from the source before the edit is white space. -/
theorem Step.solid_slice {e : Edit} {c c' : Nat} {tail tail' : Bytes} (hfits : Fits source e)
    (h : Step source e c tail c' tail') : solid (slice source c' e.start) = [] := by
  have hle : e.start ≤ source.length := Nat.le_trans hfits.ordered hfits.inside
  refine solid_eq_nil fun b hb => ?_
  obtain ⟨i, hlo, hhi, hi⟩ := mem_slice_iff.1 hb
  have hmem : b ∈ slice source (leftOf source e.start) e.start :=
    mem_slice_iff.2 ⟨i, Nat.le_trans h.left hlo, hhi, hi⟩
  rw [isSpacing, isBlank_of_mem_slice_leftOf hle hmem, Bool.true_or]

/-- **A run leaves**, up to white space, the source with the edits put in plainly. -/
theorem Run.solid_eq {es : List Edit} {c : Nat} {tail output : Bytes}
    (h : Run source es c tail output) :
    solid output = solid (plain source 0 c es.reverse) ++ solid tail := by
  induction h with
  | done => rw [solid_append]; rfl
  | @step e es c c' tail tail' output hfits hstop hstep hrun ih =>
      have hplain : solid (plain source 0 c' es.reverse) =
          solid (plain source 0 e.start es.reverse) := by
        have hsplit := plain_append source es.reverse [] (Nat.zero_le c') hstep.start
          (fun d hd => hrun.stop_le d (List.mem_reverse.1 hd)) (by simp)
        rw [List.append_nil] at hsplit
        rw [hsplit, solid_append]
        exact (List.append_right_eq_self.2 (hstep.solid_slice hfits)).symm
      rw [ih, hplain, hstep.solid_tail, List.reverse_cons, plain_concat]
      simp only [solid_append, List.append_assoc]

end

/-! ## Runs between characters -/

section
variable {source : Bytes}

/-- White space is below `0x80`. -/
theorem toNat_lt_of_isSpacing {b : UInt8} (h : isSpacing b = true) : b.toNat < 0x80 := by
  simp only [isSpacing, isBlank, isLineBreak, Bool.or_eq_true, beq_iff_eq] at h
  rcases h with (rfl | rfl) | (rfl | rfl) <;> decide

/-- The text between two boundaries. -/
theorem isText_slice (hs : IsText source) {lo hi : Nat} (hlo : OnBoundary source lo)
    (hhi : OnBoundary source hi) (hle : lo ≤ hi) : IsText (slice source lo hi) := by
  refine ((hs.cut hhi).1.cut ⟨?_, fun b hb => ?_⟩).2
  · rw [List.length_take_of_le hhi.inside]
    exact hle
  · rw [List.getElem?_take] at hb
    split at hb
    · exact hlo.notTail b hb
    · cases hb

/-- Moving a boundary to the left over blanks leads to a boundary. -/
theorem onBoundary_of_leftOf {start i : Nat} (h : OnBoundary source start)
    (hlo : leftOf source start ≤ i) (hhi : i ≤ start) : OnBoundary source i := by
  refine ⟨Nat.le_trans hhi h.inside, fun b hb => ?_⟩
  rcases Nat.eq_or_lt_of_le hhi with rfl | hlt
  · exact h.notTail b hb
  · have hmem : b ∈ slice source (leftOf source start) start :=
      mem_slice_iff.2 ⟨i, hlo, hlt, hb⟩
    have hb := toNat_lt_of_isSpacing
      (show isSpacing b = true by rw [isSpacing, isBlank_of_mem_slice_leftOf h.inside hmem]; rfl)
    rw [Text.isTail, Bool.and_eq_false_iff, decide_eq_false_iff_not]
    exact .inl (by omega)

/-- One splice of a run leaves a text for a tail if it found one. -/
theorem Step.isText_tail {e : Edit} {c c' : Nat} {tail tail' : Bytes} (hs : IsText source)
    (hstop : OnBoundary source e.stop) (hc : OnBoundary source c) (hle : e.stop ≤ c)
    (htail : IsText tail) (h : Step source e c tail c' tail') : IsText tail' := by
  obtain ⟨put, gone, rest, rfl, hrest, hgone, hput⟩ := h.parts
  have hput : IsText put := by
    rcases hput with rfl | ⟨-, hput⟩
    · exact Text.isText_encode _
    · exact Text.isText_of_forall_lt fun b hb => toNat_lt_of_isSpacing (hput b hb)
  have hwhole : IsText (gone ++ rest) := hrest ▸ (isText_slice hs hstop hc hle).append htail
  exact hput.append (hwhole.of_append fun b hb => toNat_lt_of_isSpacing (hgone b hb))

/-- **A run between characters leaves a text.** -/
theorem Run.isText {es : List Edit} {c : Nat} {tail output : Bytes} (hs : IsText source)
    (hes : ∀ e ∈ es, OnBoundary source e.start ∧ OnBoundary source e.stop)
    (h : Run source es c tail output) (hc : OnBoundary source c) (htail : IsText tail) :
    IsText output := by
  induction h with
  | done => exact (hs.cut hc).1.append htail
  | @step e es c c' tail tail' output _ hle hstep _ ih =>
      obtain ⟨hstart, hstop⟩ := hes e List.mem_cons_self
      exact ih (fun d hd => hes d (List.mem_cons_of_mem _ hd))
        (onBoundary_of_leftOf hstart hstep.left hstep.start)
        (hstep.isText_tail hs hstop hc hle htail)

end

/-! ## The edits of a source -/

section
variable {source : Bytes} {edits : List Edit}

/-- **Separated edits are spliced into a source** by a run over all of it, in whatever order they
are listed. -/
theorem exists_spliced_perm (hfits : ∀ e ∈ edits, Fits source e)
    (hsep : edits.IsChain (Separated source)) :
    ∃ output, (∀ listed : List Edit, listed.Perm edits → spliced? source listed = some output) ∧
      Run source edits.reverse source.length [] output := by
  have hchain : edits.reverse.IsChain fun b a => Separated source a b :=
    List.isChain_reverse.2 hsep
  obtain ⟨output, hout, hrun⟩ := exists_run [] (fun e he => hfits e (List.mem_reverse.1 he))
    hchain (Nat.le_refl source.length) fun e he =>
      (hfits e (List.mem_reverse.1 (List.mem_of_mem_head? he))).inside
  rw [List.take_length, List.append_nil] at hout
  refine ⟨output, fun listed hlisted => ?_, hrun⟩
  rw [spliced?, lastFirst_eq_reverse hlisted (pairwise_start_of_isChain hsep), hout]

/-- Separated edits are spliced into a source by a run over all of it. -/
theorem exists_spliced (hfits : ∀ e ∈ edits, Fits source e)
    (hsep : edits.IsChain (Separated source)) :
    ∃ output, spliced? source edits = some output ∧
      Run source edits.reverse source.length [] output := by
  obtain ⟨output, hout, hrun⟩ := exists_spliced_perm hfits hsep
  exact ⟨output, hout edits (.refl _), hrun⟩

end

/-! ## Stages -/

/-- The buffers that splicing goes through, each with the edit that is applied to it. -/
def stages : List Edit → Bytes → List (Bytes × Edit)
  | [], _ => []
  | e :: es, buffer =>
    (buffer, e) :: match e.span buffer with
      | some s => stages es (s.splice buffer)
      | none => []

/-- **Splicing that succeeds** has a span at every stage. -/
theorem span_isSome_of_mem_stages {es : List Edit} {buffer output : Bytes}
    (h : spliceEach es buffer = some output) :
    ∀ t ∈ stages es buffer, (t.2.span t.1).isSome := by
  induction es generalizing buffer with
  | nil => exact fun _ ht => absurd ht List.not_mem_nil
  | cons e es ih =>
      rw [spliceEach] at h
      obtain ⟨s, hs, h⟩ := Option.bind_eq_some_iff.1 h
      intro t ht
      rw [stages, hs] at ht
      rcases List.mem_cons.1 ht with rfl | ht
      · exact Option.isSome_iff_exists.2 ⟨s, hs⟩
      · exact ih h t ht

/-- Splicing that succeeds looks at no position outside its buffer. -/
theorem reads_lt_of_mem_stages {es : List Edit} {buffer output : Bytes}
    (h : spliceEach es buffer = some output) :
    ∀ t ∈ stages es buffer, t.2.isRemoval = true →
      ∀ i ∈ removalReads t.1 t.2.start t.2.stop, i < t.1.length := by
  intro t ht hrem
  have hspan := span_isSome_of_mem_stages h t ht
  rw [span, if_pos hrem] at hspan
  exact removalSpan_isSome_iff.1 hspan

end ScriptScrub.Edit
