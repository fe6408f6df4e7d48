import ScriptScrub.Proofs.Edit.Spacing

/-!
# Where the output comes from

If every byte of a source is marked with its position, and every byte that an edit puts in with the
edit, splicing tells where each byte of the output comes from. Marks do not change what is spliced
(`map_bytesOf_traced?`).

`Spaced.exists_traced` is the induction along the splices of spaced edits. Before each of them the
buffer is the source up to some position and then a tail; a property of the two that every removal
and every replacement keeps holds at the end. What each of them finds is a `Turn`.
-/

namespace ScriptScrub.Edit

open Text (encode)

/-! ## Marks -/

/-- Where a byte of an output comes from. -/
inductive Origin where
  /-- It stands at a position of the source. -/
  | source (i : Nat)
  /-- It was put in the place of an edit. -/
  | edit (e : Edit)
deriving DecidableEq

/-- A byte and where it comes from. -/
structure Mark where
  byte : UInt8
  origin : Origin
deriving DecidableEq

/-- The bytes without their marks. -/
def bytesOf (marks : List Mark) : Bytes := marks.map Mark.byte

/-- The bytes of a source, each marked with its position. -/
def marked (source : Bytes) : List Mark := source.mapIdx fun i b => ⟨b, .source i⟩

/-- Some bytes, marked as put in the place of an edit. -/
def putMarks (e : Edit) (bytes : Bytes) : List Mark := bytes.map fun b => ⟨b, .edit e⟩

/-- Puts the replacement of `s` in the place of its range and marks it with the edit. -/
def Span.spliceMarks (s : Span) (e : Edit) (marks : List Mark) : List Mark :=
  marks.take s.start ++ putMarks e s.replacement ++ marks.drop (max s.start s.stop)

/-- Applies the edits in the order of the list to marked bytes. -/
def traceEach : List Edit → List Mark → Option (List Mark)
  | [], marks => some marks
  | e :: es, marks => (e.span (bytesOf marks)).bind fun s => traceEach es (s.spliceMarks e marks)

/-- What the edits make of a source, each byte marked with where it comes from. -/
def traced? (source : Bytes) (edits : List Edit) : Option (List Mark) :=
  traceEach (lastFirst edits) (marked source)

section
variable {source : Bytes} {as bs : List Mark} {e : Edit} {i c : Nat} {m : Mark}

/-- The bytes of two texts one after the other. -/
@[simp]
theorem bytesOf_append (as bs : List Mark) : bytesOf (as ++ bs) = bytesOf as ++ bytesOf bs :=
  List.map_append

/-- The bytes that are put in. -/
@[simp]
theorem bytesOf_putMarks (e : Edit) (bytes : Bytes) : bytesOf (putMarks e bytes) = bytes := by
  rw [bytesOf, putMarks, List.map_map]
  exact List.map_id _

/-- The bytes of a source are its bytes. -/
@[simp]
theorem bytesOf_marked (source : Bytes) : bytesOf (marked source) = source := by
  refine List.ext_getElem? fun i => ?_
  rw [bytesOf, marked, List.getElem?_map, List.getElem?_mapIdx, Option.map_map]
  exact Option.map_id'

/-- A byte of a source is marked with its position. -/
theorem getElem?_marked : (marked source)[i]? = some m ↔
    source[i]? = some m.byte ∧ m.origin = .source i := by
  obtain ⟨byte, origin⟩ := m
  rw [marked, List.getElem?_mapIdx, Option.map_eq_some_iff]
  constructor
  · rintro ⟨b, hb, heq⟩
    cases heq
    exact ⟨hb, rfl⟩
  · rintro ⟨hb, rfl⟩
    exact ⟨byte, hb, rfl⟩

/-- As many marks as bytes. -/
theorem length_marked (source : Bytes) : (marked source).length = source.length :=
  List.length_mapIdx

/-- The bytes of the source up to a position, and of a tail. -/
theorem bytesOf_buffer (source : Bytes) (c : Nat) (tail : List Mark) :
    bytesOf ((marked source).take c ++ tail) = source.take c ++ bytesOf tail := by
  rw [bytesOf_append, bytesOf, List.map_take, ← bytesOf, bytesOf_marked]

/-- The marked buffer up to a position of the source. -/
theorem take_marks (hc : c ≤ source.length) (hi : i ≤ c) (tail : List Mark) :
    ((marked source).take c ++ tail).take i = (marked source).take i := by
  have hlen : ((marked source).take c).length = c :=
    List.length_take_of_le (by rwa [length_marked])
  rw [List.take_append_of_le_length (by omega), List.take_take, Nat.min_eq_left hi]

/-- What is put in comes from the edit. -/
theorem origin_of_mem_putMarks {bytes : Bytes} (h : m ∈ putMarks e bytes) : m.origin = .edit e := by
  obtain ⟨b, -, rfl⟩ := List.mem_map.1 h
  rfl

/-- Marks are spliced as bytes are. -/
theorem bytesOf_spliceMarks (s : Span) (e : Edit) (marks : List Mark) :
    bytesOf (s.spliceMarks e marks) = s.splice (bytesOf marks) := by
  rw [Span.spliceMarks, Span.splice, bytesOf_append, bytesOf_append, bytesOf_putMarks, bytesOf,
    bytesOf, bytesOf, List.map_take, List.map_drop]

/-- Applying edits to marked bytes applies them to the bytes. -/
theorem map_bytesOf_traceEach (es : List Edit) (marks : List Mark) :
    (traceEach es marks).map bytesOf = spliceEach es (bytesOf marks) := by
  induction es generalizing marks with
  | nil => rfl
  | cons e es ih =>
      rw [traceEach, spliceEach]
      cases e.span (bytesOf marks) with
      | none => rfl
      | some s =>
          rw [Option.bind_some, Option.bind_some, ih, bytesOf_spliceMarks]

/-- **Marks do not change what is spliced.** -/
theorem map_bytesOf_traced? (source : Bytes) (edits : List Edit) :
    (traced? source edits).map bytesOf = spliced? source edits := by
  rw [traced?, map_bytesOf_traceEach, bytesOf_marked, spliced?]

/-- Applying edits puts in no byte that is marked with a position. -/
theorem mem_of_mem_traceEach {es : List Edit} {marks marks' : List Mark}
    (h : traceEach es marks = some marks') (hm : m ∈ marks') (hi : m.origin = .source i) :
    m ∈ marks := by
  induction es generalizing marks with
  | nil =>
      cases h
      exact hm
  | cons e es ih =>
      obtain ⟨s, -, h⟩ := Option.bind_eq_some_iff.1 h
      have hmem := ih h
      rw [Span.spliceMarks, List.mem_append, List.mem_append] at hmem
      rcases hmem with (hmem | hmem) | hmem
      · exact List.mem_of_mem_take hmem
      · rw [origin_of_mem_putMarks hmem] at hi
        cases hi
      · exact List.mem_of_mem_drop hmem

/-- **A byte of the output** that is marked with a position stands there in the source. -/
theorem getElem?_of_traced? {edits : List Edit} {marks : List Mark}
    (h : traced? source edits = some marks) (hm : m ∈ marks) (hi : m.origin = .source i) :
    source[i]? = some m.byte := by
  obtain ⟨j, hj⟩ := List.mem_iff_getElem?.1 (mem_of_mem_traceEach h hm hi)
  obtain ⟨hbyte, horigin⟩ := getElem?_marked.1 hj
  rw [hi, Origin.source.injEq] at horigin
  rwa [horigin]

/-- Edits that begin one after the other are applied in reverse, in whatever order they are
listed. -/
theorem traced?_eq {edits listed : List Edit} (hlisted : listed.Perm edits)
    (h : edits.Pairwise fun a b => a.start < b.start) :
    traced? source listed = traceEach edits.reverse (marked source) := by
  rw [traced?, lastFirst_eq_reverse hlisted h]

/-- The output is what the marked bytes are. -/
theorem spliced?_of_traced? {edits : List Edit} {marks : List Mark}
    (h : traced? source edits = some marks) : spliced? source edits = some (bytesOf marks) := by
  rw [← map_bytesOf_traced?, h, Option.map_some]

end

/-! ## The induction along the splices -/

/-- It is the turn of the edit `e`: the buffer is the source up to `c`, and then a tail that comes
from behind. -/
structure Turn (source : Bytes) (edits : List Edit) (e : Edit) (c : Nat) (tail : List Mark) :
    Prop where
  mem : e ∈ edits
  proper : e.start < e.stop
  stop_le : e.stop ≤ c
  inside : c ≤ source.length
  /-- It is the first turn, or the source stays up to where an edit behind begins or was widened
  to. -/
  widened : c = source.length ∧ tail = [] ∨
    ∃ d ∈ edits, leftOf source d.start ≤ c ∧ c ≤ d.start
  /-- The other edits end before `e`, or it was their turn. -/
  apart : ∀ d ∈ edits, d = e ∨ d.stop ≤ e.start ∨ c ≤ d.start
  behind : ∀ m ∈ tail, ∀ i, m.origin = .source i → c ≤ i

section
variable {source : Bytes} {edits : List Edit} {e : Edit} {c : Nat} {tail : List Mark}

/-- The edit begins in the part of the source that stays. -/
theorem Turn.start_le (h : Turn source edits e c tail) : e.start ≤ c :=
  Nat.le_trans (Nat.le_of_lt h.proper) h.stop_le

/-- The edit lies in the buffer. -/
theorem Turn.stop_le_length (h : Turn source edits e c tail) :
    e.stop ≤ (source.take c ++ bytesOf tail).length := by
  rw [List.length_append, List.length_take_of_le h.inside]
  exact Nat.le_trans h.stop_le (Nat.le_add_right _ _)

/-- Before the edit the buffer is the source. -/
theorem Turn.take_eq (h : Turn source edits e c tail) {i : Nat} (hi : i ≤ e.start) :
    (source.take c ++ bytesOf tail).take i = source.take i :=
  take_buffer _ h.inside (Nat.le_trans hi h.start_le)

/-- Widening the edit to the left goes as far as it does in the source. -/
theorem Turn.leftOf_eq (h : Turn source edits e c tail) :
    leftOf (source.take c ++ bytesOf tail) e.start = leftOf source e.start :=
  leftOf_congr (h.take_eq (Nat.le_refl _))

/-- Whether the edit starts a line is told by the source. -/
theorem Turn.startsLine_eq (h : Turn source edits e c tail) :
    startsLine (source.take c ++ bytesOf tail) (leftOf source e.start) =
      startsLine source (leftOf source e.start) :=
  startsLine_congr (h.take_eq (leftOf_le _ _))

/-- What follows a position of the source in the buffer comes from behind it. -/
theorem Turn.le_of_mem_drop (h : Turn source edits e c tail) {j : Nat} (hj : j ≤ c) {m : Mark}
    (hm : m ∈ ((marked source).take c ++ tail).drop j) {i : Nat} (hi : m.origin = .source i) :
    j ≤ i := by
  have hlen : ((marked source).take c).length = c :=
    List.length_take_of_le (by rw [length_marked]; exact h.inside)
  rw [List.drop_append_of_le_length (by omega), List.mem_append] at hm
  rcases hm with hm | hm
  · obtain ⟨k, hk⟩ := List.mem_iff_getElem?.1 hm
    rw [List.getElem?_drop, List.getElem?_take] at hk
    split at hk
    · obtain ⟨-, horigin⟩ := getElem?_marked.1 hk
      rw [hi, Origin.source.injEq] at horigin
      omega
    · cases hk
  · exact Nat.le_trans hj (h.behind m hm i hi)

/-- What follows an edit in the buffer comes from behind it. -/
theorem Turn.stop_le_of_mem (h : Turn source edits e c tail) {stop : Nat} (hstop : e.stop ≤ stop)
    {m : Mark} (hm : m ∈ ((marked source).take c ++ tail).drop stop) {i : Nat}
    (hi : m.origin = .source i) : e.stop ≤ i := by
  rw [← Nat.add_sub_of_le hstop, ← List.drop_drop] at hm
  exact h.le_of_mem_drop h.stop_le (List.mem_of_mem_drop hm) hi

/-- What an edit leaves behind a position before it comes from behind the position. -/
theorem Turn.behind_next (h : Turn source edits e c tail) {c' stop : Nat} (hc' : c' ≤ e.start)
    (hstop : e.stop ≤ stop) (bytes : Bytes) :
    ∀ m ∈ putMarks e bytes ++ ((marked source).take c ++ tail).drop stop,
      ∀ i, m.origin = .source i → c' ≤ i := by
  intro m hm i hi
  rcases List.mem_append.1 hm with hm | hm
  · rw [origin_of_mem_putMarks hm] at hi
    cases hi
  · have := h.stop_le_of_mem hstop hm hi
    have := h.proper
    omega

/-- Every splice of the edits keeps a property of the position up to which the source stays and of
what stands behind it. -/
structure SplicesKeep (source : Bytes) (edits : List Edit) (P : Nat → List Mark → Prop) :
    Prop where
  removal : ∀ {e : Edit} {c : Nat} {tail : List Mark} {s : Span}, Turn source edits e c tail →
    e.isRemoval = true → s.Tidies (source.take c ++ bytesOf tail) e.start e.stop → P c tail →
    P s.start (putMarks e s.replacement ++ ((marked source).take c ++ tail).drop s.stop)
  replacement : ∀ {e : Edit} {c : Nat} {tail : List Mark}, Turn source edits e c tail →
    e.isRemoval = false → P c tail →
    P e.start (putMarks e (encode e.replacement) ++ ((marked source).take c ++ tail).drop e.stop)

/-- After the last splice the source stays up to `c`, before all edits, and a tail that comes from
behind follows. -/
structure Over (source : Bytes) (edits : List Edit) (c : Nat) (tail : List Mark) : Prop where
  inside : c ≤ source.length
  before : ∀ d ∈ edits, c ≤ d.start
  behind : ∀ m ∈ tail, ∀ i, m.origin = .source i → c ≤ i

variable {P : Nat → List Mark → Prop}

/-- One splice of marked bytes: the source stays up to `c'`, and no further than its blanks before
the edit. -/
structure Splices (source : Bytes) (e : Edit) (c : Nat) (tail : List Mark) (c' : Nat)
    (tail' : List Mark) : Prop where
  left : leftOf source e.start ≤ c'
  start : c' ≤ e.start
  behind : ∀ m ∈ tail', ∀ i, m.origin = .source i → c' ≤ i
  trace : ∀ es, traceEach (e :: es) ((marked source).take c ++ tail) =
    traceEach es ((marked source).take c' ++ tail')

/-- An edit with a span before the tail splices. -/
theorem Turn.splices (h : Turn source edits e c tail) {s : Span}
    (hspan : e.span (source.take c ++ bytesOf tail) = some s)
    (hleft : leftOf source e.start ≤ s.start) (hstart : s.start ≤ e.start)
    (hstop : e.stop ≤ s.stop) :
    Splices source e c tail s.start
      (putMarks e s.replacement ++ ((marked source).take c ++ tail).drop s.stop) := by
  refine ⟨hleft, hstart, h.behind_next hstart hstop _, fun es => ?_⟩
  have := h.proper
  have hmax : max s.start s.stop = s.stop := Nat.max_eq_right (by omega)
  have hle : s.start ≤ c := Nat.le_trans hstart h.start_le
  rw [traceEach, bytesOf_buffer, hspan, Option.bind_some, Span.spliceMarks,
    take_marks h.inside hle, hmax, List.append_assoc]

/-- **An edit whose turn it is splices** and keeps what every splice keeps. -/
theorem SplicesKeep.exists_splices (hkeep : SplicesKeep source edits P)
    (h : Turn source edits e c tail) (hP : P c tail) :
    ∃ c' tail', Splices source e c tail c' tail' ∧ P c' tail' := by
  cases hrem : e.isRemoval with
  | true =>
      have hlen := h.stop_le_length
      obtain ⟨s, hs, htidies⟩ := removalSpan_eq_some (Nat.le_of_lt h.proper) hlen
      have hremoves := htidies.removes hlen
      have hleft := hremoves.leftOf_le
      rw [h.leftOf_eq] at hleft
      exact ⟨_, _, h.splices (by rw [span, if_pos hrem, hs]) hleft hremoves.start_le
        hremoves.le_stop, hkeep.removal h hrem htidies hP⟩
  | false =>
      have hspan : e.span (source.take c ++ bytesOf tail) =
          some ⟨e.start, e.stop, encode e.replacement⟩ := by
        rw [span, if_neg (by rw [hrem]; decide)]
      exact ⟨_, _, h.splices hspan (leftOf_le _ _) (Nat.le_refl _) (Nat.le_refl _),
        hkeep.replacement h hrem hP⟩

/-- Edits that come one after the other and are separated are spliced, from the last to the first,
and what every splice keeps stays. -/
theorem exists_traceEach (hin : ∀ e ∈ edits, e.start < e.stop ∧ e.stop ≤ source.length)
    (hkeep : SplicesKeep source edits P) {es : List Edit} (hmem : ∀ e ∈ es, e ∈ edits)
    (hpair : es.Pairwise fun b a => a.stop ≤ b.start)
    (hsep : es.IsChain fun b a => Separated source a b) (hc : c ≤ source.length)
    (hhead : ∀ e ∈ es.head?, e.stop ≤ c) (hdone : ∀ d ∈ edits, d ∈ es ∨ c ≤ d.start)
    (hwide : c = source.length ∧ tail = [] ∨
      ∃ d ∈ edits, leftOf source d.start ≤ c ∧ c ≤ d.start)
    (hbehind : ∀ m ∈ tail, ∀ i, m.origin = .source i → c ≤ i) (hP : P c tail) :
    ∃ c' tail', traceEach es ((marked source).take c ++ tail) =
      some ((marked source).take c' ++ tail') ∧ Over source edits c' tail' ∧ P c' tail' := by
  induction es generalizing c tail with
  | nil =>
      have hbefore : ∀ d ∈ edits, c ≤ d.start := fun d hd =>
        (hdone d hd).resolve_left List.not_mem_nil
      exact ⟨c, tail, rfl, ⟨hc, hbefore, hbehind⟩, hP⟩
  | cons e es ih =>
      obtain ⟨hlt, hinside⟩ := hin e (hmem e List.mem_cons_self)
      have hstop : e.stop ≤ c := hhead e rfl
      obtain ⟨hbefore, hpair⟩ := List.pairwise_cons.1 hpair
      obtain ⟨hnext, hsep⟩ := List.isChain_cons.1 hsep
      have hturn : Turn source edits e c tail := by
        refine ⟨hmem e List.mem_cons_self, hlt, hstop, hc, hwide, fun d hd => ?_, hbehind⟩
        rcases hdone d hd with hd | hd
        · exact (List.mem_cons.1 hd).imp_right fun hd => .inl (hbefore d hd)
        · exact .inr (.inr hd)
      obtain ⟨c', tail', hsplices, hP'⟩ := hkeep.exists_splices hturn hP
      have hle := hsplices.start
      have hhead' : ∀ d ∈ es.head?, d.stop ≤ c' := fun d hd =>
        Nat.le_trans ((hnext d hd).stop_le_leftOf (by omega)) hsplices.left
      have hdone' : ∀ d ∈ edits, d ∈ es ∨ c' ≤ d.start := by
        intro d hd
        rcases hdone d hd with hd | hd
        · rcases List.mem_cons.1 hd with rfl | hd
          · exact .inr hle
          · exact .inl hd
        · exact .inr (by omega)
      rw [hsplices.trace]
      exact ih (fun d hd => hmem d (List.mem_cons_of_mem _ hd)) hpair hsep (by omega) hhead'
        hdone' (.inr ⟨e, hturn.mem, hsplices.left, hle⟩) hsplices.behind hP'

/-- **Spaced edits are traced**, and what every splice keeps stays. -/
theorem Spaced.exists_traced (h : Spaced source edits) (hsource : P source.length [])
    (hkeep : SplicesKeep source edits P) :
    ∃ c tail, traced? source edits = some ((marked source).take c ++ tail) ∧
      Over source edits c tail ∧ P c tail := by
  have hchain := h.isChain_ascending
  have hmem : ∀ e, e ∈ (ascending edits).reverse ↔ e ∈ edits := fun e => by
    rw [List.mem_reverse, (ascending_perm edits).mem_iff]
  obtain ⟨c, tail, htrace, hover, hP⟩ := exists_traceEach h.inside hkeep
    (fun e he => (hmem e).1 he) (List.pairwise_reverse.2 h.pairwise_ascending)
    (List.isChain_reverse.2 hchain) (Nat.le_refl _)
    (fun e he => (h.inside e ((hmem e).1 (List.mem_of_mem_head? he))).2)
    (fun d hd => .inl ((hmem d).2 hd)) (.inl ⟨rfl, rfl⟩) (by simp) hsource
  rw [List.append_nil, List.take_of_length_le (Nat.le_of_eq (length_marked source))] at htrace
  refine ⟨c, tail, ?_, hover, hP⟩
  rw [traced?_eq (ascending_perm edits).symm (pairwise_start_of_isChain hchain), htrace]

end

end ScriptScrub.Edit
