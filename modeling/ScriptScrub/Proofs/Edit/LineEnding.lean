import ScriptScrub.Proofs.Edit.Neighbour

/-!
# Line ends of two bytes

In some texts every line ends with a carriage return and a line feed (`Paired`). Edits that split no
such pair leave no carriage return alone, and no line feed of the source (`lineEnds_paired`). Only
the line feed that takes the place of a removed text of more than one line comes alone
(`lineEnds_mixed`): the output is paired exactly if none stays, for instance if every such text has
nothing but blanks before it on its line, or behind it (`BreaksLine`).
-/

namespace ScriptScrub.Edit

open Text (encode)

/-! ## Pairs -/

/-- Every carriage return is followed by a line feed and every line feed follows a carriage
return. -/
structure Paired (bytes : Bytes) : Prop where
  returns : ∀ i : Nat, bytes[i]? = some 0x0D → bytes[i + 1]? = some 0x0A
  feeds : ∀ i : Nat, bytes[i]? = some 0x0A → 0 < i ∧ bytes[i - 1]? = some 0x0D

/-- Whether the line ends are pairs is told by the positions in the text. -/
theorem paired_iff_lt {bytes : Bytes} :
    Paired bytes ↔ ∀ i < bytes.length, (bytes[i]? = some 0x0D → bytes[i + 1]? = some 0x0A) ∧
      (bytes[i]? = some 0x0A → 0 < i ∧ bytes[i - 1]? = some 0x0D) := by
  refine ⟨fun h i _ => ⟨h.returns i, h.feeds i⟩, fun h => ⟨fun i hcr => ?_, fun i hlf => ?_⟩⟩
  · exact (h i (List.getElem?_eq_some_iff.1 hcr).1).1 hcr
  · exact (h i (List.getElem?_eq_some_iff.1 hlf).1).2 hlf

instance (bytes : Bytes) : Decidable (Paired bytes) := decidable_of_iff _ paired_iff_lt.symm

/-- The position parts a carriage return from its line feed. -/
def SplitsPair (source : Bytes) (i : Nat) : Prop :=
  0 < i ∧ source[i - 1]? = some 0x0D ∧ source[i]? = some 0x0A

instance (source : Bytes) (i : Nat) : Decidable (SplitsPair source i) :=
  inferInstanceAs (Decidable (_ ∧ _ ∧ _))

/-- From the position on there are only blanks on the line, and no edit covers them or the line
break. -/
def RestBlank (source : Bytes) (edits : List Edit) (stop : Nat) : Prop :=
  ∃ j, stop ≤ j ∧
    (∀ i, stop ≤ i → i < j → uncovered edits i = true ∧ ∃ b ∈ source[i]?, isBlank b = true) ∧
    (j = source.length ∨ uncovered edits j = true ∧ ∃ b ∈ source[j]?, isLineBreak b = true)

/-- The edit removes a line feed, and other things than blanks stand before it on its line and
behind it. -/
structure BreaksLine (source : Bytes) (edits : List Edit) (e : Edit) : Prop where
  mem : e ∈ edits
  removal : e.isRemoval = true
  lineFeed : 0x0A ∈ slice source e.start e.stop
  before : startsLine source (leftOf source e.start) = false
  behind : ¬ RestBlank source edits e.stop

/-! ## The end of the line behind a removal -/

section
variable {source buffer : Bytes} {edits : List Edit} {e : Edit} {c : Nat} {tail : List Mark}

/-- The blanks behind a position go up to the first byte that is none. -/
theorem rightOf_eq {stop j : Nat} (hle : stop ≤ j) (hj : j ≤ buffer.length)
    (hblank : ∀ b ∈ slice buffer stop j, isBlank b = true)
    (hend : ∀ b ∈ buffer[j]?, isBlank b = false) : rightOf buffer stop = j := by
  have hlen : (slice buffer stop j).length = j - stop := by
    rw [slice, List.length_drop, List.length_take_of_le hj]
  have hnone : (buffer.drop j).takeWhile isBlank = [] := by
    rw [← List.head?_drop] at hend
    cases hrest : buffer.drop j with
    | nil => rfl
    | cons b rest =>
        rw [hrest] at hend
        exact List.takeWhile_cons_of_neg (by rw [hend b rfl]; decide)
  rw [rightOf, ← slice_append_drop hle, List.takeWhile_append_of_pos hblank, hnone,
    List.append_nil, hlen]
  omega

/-- Where only blanks follow up to the end of a line, widening to the right comes to its end. -/
theorem endsLine_rightOf {stop j : Nat} (hle : stop ≤ j) (hj : j ≤ buffer.length)
    (hblank : ∀ b ∈ slice buffer stop j, isBlank b = true) (hend : endsLine buffer j = true) :
    endsLine buffer (rightOf buffer stop) = true := by
  have hnot : ∀ b ∈ buffer[j]?, isBlank b = false := by
    intro b hb
    rw [endsLine, hb] at hend
    exact isBlank_of_isLineBreak hend
  rwa [rightOf_eq hle hj hblank hnot]

/-- The rest of a line that is blank, with nothing removed or replaced there, reaches no edit. -/
theorem RestBlank.le_leftOf {d : Edit} {stop j : Nat}
    (hbare : ∀ i, stop ≤ i → i < j → uncovered edits i = true)
    (hj : j = source.length ∨ uncovered edits j = true ∧ ∃ b ∈ source[j]?, isLineBreak b = true)
    (hd : d ∈ edits) (hproper : d.start < d.stop) (hinside : d.stop ≤ source.length)
    (hstop : stop ≤ d.start) : j < leftOf source d.start := by
  have hcovered : uncovered edits d.start = false := by
    refine Bool.eq_false_iff.2 fun hun => ?_
    have := of_decide_eq_true (List.all_eq_true.1 hun d hd)
    omega
  have hle : j ≤ d.start := by
    by_contra hlt
    rw [hbare d.start hstop (by omega)] at hcovered
    cases hcovered
  rcases hj with rfl | ⟨hun, b, hb, hbreak⟩
  · omega
  · have hne : j ≠ d.start := by
      rintro rfl
      rw [hun] at hcovered
      cases hcovered
    exact lt_leftOf hb (isBlank_of_isLineBreak hbreak) (by omega) (by omega)

/-- **The rest of a line that is blank** still is when the turn of the edit before it has come. -/
theorem Turn.endsLine_of_restBlank (h : Turn source edits e c tail)
    (hin : ∀ d ∈ edits, d.start < d.stop ∧ d.stop ≤ source.length)
    (hrest : RestBlank source edits e.stop) :
    endsLine (source.take c ++ bytesOf tail)
      (rightOf (source.take c ++ bytesOf tail) e.stop) = true := by
  obtain ⟨j, hle, hblank, hj⟩ := hrest
  have hends : endsLine source j = true := by
    rcases hj with rfl | ⟨-, b, hb, hbreak⟩
    · rw [endsLine, List.getElem?_eq_none (Nat.le_refl _)]
    · rw [endsLine, hb]
      exact hbreak
  have hblanks : ∀ b ∈ slice source e.stop j, isBlank b = true := by
    intro b hb
    obtain ⟨i, hlo, hhi, hb⟩ := mem_slice_iff.1 hb
    obtain ⟨-, b', hb', hblank⟩ := hblank i hlo hhi
    rw [hb, Option.mem_some_iff] at hb'
    rwa [hb']
  have hin' : j ≤ source.length := by
    rcases hj with rfl | ⟨-, b, hb, -⟩
    · exact Nat.le_refl _
    · exact Nat.le_of_lt (List.getElem?_eq_some_iff.1 hb).1
  rcases h.widened with ⟨rfl, rfl⟩ | ⟨d, hd, hleft, hstart⟩
  · have hbuffer : source.take source.length ++ bytesOf [] = source := by
      rw [List.take_length, bytesOf, List.map_nil, List.append_nil]
    rw [hbuffer]
    exact endsLine_rightOf hle hin' hblanks hends
  · obtain ⟨hproper, hinside⟩ := hin d hd
    have hlt : j < c := Nat.lt_of_lt_of_le
      (RestBlank.le_leftOf (fun i hlo hhi => (hblank i hlo hhi).1) hj hd hproper hinside
        (Nat.le_trans h.stop_le hstart)) hleft
    have htake : ∀ i ≤ c, (source.take c ++ bytesOf tail).take i = source.take i :=
      fun i hi => take_buffer _ h.inside hi
    have hbyte : (source.take c ++ bytesOf tail)[j]? = source[j]? := by
      rw [← List.getElem?_take_of_lt (Nat.lt_succ_self j), htake _ hlt,
        List.getElem?_take_of_lt (Nat.lt_succ_self j)]
    refine endsLine_rightOf hle ?_ ?_ ?_
    · rw [List.length_append, List.length_take_of_le h.inside]
      omega
    · rwa [slice, htake j (Nat.le_of_lt hlt)]
    · rwa [endsLine, hbyte]

/-! ## The byte before the end of a removal -/

/-- A terminator that is taken along ends with a line feed if every carriage return comes with
one. -/
theorem afterTerminator_lineFeed (right : Nat)
    (hreturns : ∀ i : Nat, buffer[i]? = some 0x0D → buffer[i + 1]? = some 0x0A) :
    afterTerminator buffer right = right ∨
      buffer[afterTerminator buffer right - 1]? = some 0x0A := by
  unfold afterTerminator
  split
  · next hcr =>
    have hlf := hreturns right hcr
    rw [if_pos hlf]
    exact .inr hlf
  · dsimp only
    split
    · next hlf => exact .inr hlf
    · exact .inl rfl

/-- **A removal ends behind no carriage return** if its range does not, and every carriage return
comes with a line feed. -/
theorem Span.Tidies.not_return {s : Span} {start stop : Nat} (h : s.Tidies buffer start stop)
    (hreturns : ∀ i : Nat, buffer[i]? = some 0x0D → buffer[i + 1]? = some 0x0A)
    (hstop : buffer[stop - 1]? ≠ some 0x0D) : buffer[s.stop - 1]? ≠ some 0x0D := by
  have hright : buffer[rightOf buffer stop - 1]? ≠ some 0x0D := by
    rcases Nat.eq_or_lt_of_le (le_rightOf buffer stop) with heq | hlt
    · rwa [← heq]
    · intro hcr
      have hmem : 0x0D ∈ slice buffer stop (rightOf buffer stop) :=
        mem_slice_iff.2 ⟨_, by omega, by omega, hcr⟩
      exact absurd (isBlank_of_mem_slice_rightOf hmem) (by decide)
  cases h with
  | line =>
      rcases afterTerminator_lineFeed (rightOf buffer stop) hreturns with heq | hlf
      · rwa [heq]
      · rw [hlf]
        decide
  | trailing | leading | broken | closed | spaced => exact hright

end

/-! ## Carriage returns -/

/-- A carriage return is followed by a line feed. -/
def Returns (x y : Option Mark) : Prop := (∃ a ∈ x, a.byte = 0x0D) → ∃ b ∈ y, b.byte = 0x0A

section
variable {source : Bytes} {edits : List Edit} {e : Edit} {c : Nat} {tail : List Mark}

/-- In a text whose neighbours are such, a line feed follows each carriage return. -/
theorem Beside.lineFeed_of_return {marks : List Mark} (h : Beside Returns marks) (i : Nat)
    (hcr : (bytesOf marks)[i]? = some 0x0D) : (bytesOf marks)[i + 1]? = some 0x0A := by
  rw [bytesOf, List.getElem?_map, Option.map_eq_some_iff] at hcr ⊢
  obtain ⟨a, ha, hbyte⟩ := hcr
  have hi : i < marks.length := (List.getElem?_eq_some_iff.1 ha).1
  obtain ⟨b, hb, hlf⟩ := (beside_iff.1 h).2 i hi ⟨a, ha, hbyte⟩
  exact ⟨b, hb, hlf⟩

/-- The last byte of the source before a position that parts no pair, and where no blank follows, is
no carriage return. -/
theorem not_return_take
    (hreturns : ∀ i : Nat, source[i]? = some 0x0D → source[i + 1]? = some 0x0A) {left start : Nat}
    (hleft : leftOf source start ≤ left) (hstart : left ≤ start) (hin : start ≤ source.length)
    (hsplit : ¬ SplitsPair source start) :
    ∀ a ∈ ((marked source).take left).getLast?, a.byte ≠ 0x0D := by
  intro a ha hcr
  obtain ⟨hpos, hbyte, -⟩ := getLast?_take_marked (Nat.le_trans hstart hin) ha
  rw [hcr] at hbyte
  have hlf := hreturns _ hbyte
  rw [Nat.sub_add_cancel hpos] at hlf
  rcases Nat.eq_or_lt_of_le hstart with rfl | hlt
  · exact hsplit ⟨hpos, hbyte, hlf⟩
  · have hmem : 0x0A ∈ slice source (leftOf source start) start :=
      mem_slice_iff.2 ⟨left, hleft, hlt, hlf⟩
    exact absurd (isBlank_of_mem_slice_leftOf hin hmem) (by decide)

/-- What a removal puts in is no carriage return. -/
theorem Span.Tidies.not_return_put {buffer : Bytes} {start stop : Nat} {s : Span}
    (h : s.Tidies buffer start stop) : ∀ x ∈ s.replacement, x ≠ 0x0D := by
  cases h with
  | line | trailing | leading | closed => exact fun x hx => absurd hx List.not_mem_nil
  | broken | spaced =>
      intro x hx
      obtain rfl := List.mem_singleton.1 hx
      decide

/-- **Every splice leaves carriage returns with their line feeds.** -/
theorem splicesKeep_returns
    (hreturns : ∀ i : Nat, source[i]? = some 0x0D → source[i + 1]? = some 0x0A)
    (hsplit : ∀ d ∈ edits, ¬ SplitsPair source d.start)
    (hreplacement : ∀ d ∈ edits, ∀ b ∈ encode d.replacement, isLineBreak b = false) :
    SplicesKeep source edits fun c tail => Beside Returns ((marked source).take c ++ tail) := by
  have hapart : ∀ x y : Option Mark, (∀ a ∈ x, a.byte ≠ 0x0D) → True → Returns x y :=
    fun x y hx _ ⟨a, ha, hcr⟩ => absurd hcr (hx a ha)
  have hput : ∀ (e : Edit) (bytes : Bytes), (∀ x ∈ bytes, x ≠ 0x0D) →
      ∀ m ∈ putMarks e bytes, (∀ a ∈ some m, a.byte ≠ 0x0D) ∧ True := by
    intro e bytes hbytes m hm
    obtain ⟨x, hx, rfl⟩ := List.mem_map.1 hm
    exact ⟨fun a ha => Option.mem_some_iff.1 ha ▸ hbytes x hx, trivial⟩
  constructor
  case removal =>
    intro e c tail s hturn _ htidies hbeside
    have hremoves := htidies.removes hturn.stop_le_length
    have hleft := hremoves.leftOf_le
    rw [hturn.leftOf_eq] at hleft
    have hin := Nat.le_trans hturn.start_le hturn.inside
    exact beside_between hapart (hturn.opens hbeside hremoves.start_le) (hbeside.closes_drop _)
      (not_return_take hreturns hleft hremoves.start_le hin (hsplit e hturn.mem)) trivial
      (hput e _ htidies.not_return_put)
  case replacement =>
    intro e c tail hturn _ hbeside
    have hin := Nat.le_trans hturn.start_le hturn.inside
    refine beside_between hapart (hturn.opens hbeside (Nat.le_refl _)) (hbeside.closes_drop _)
      (not_return_take hreturns (leftOf_le _ _) (Nat.le_refl _) hin (hsplit e hturn.mem)) trivial
      (hput e _ fun x hx hcr => ?_)
    have hx := hreplacement e hturn.mem x hx
    rw [hcr] at hx
    cases hx

/-- In a source where a line feed follows each carriage return the neighbours are such. -/
theorem returns_marked
    (hreturns : ∀ i : Nat, source[i]? = some 0x0D → source[i + 1]? = some 0x0A) :
    Beside Returns (marked source) := by
  refine beside_iff.2 ⟨fun ⟨a, ha, _⟩ => (nomatch ha), fun i _ ⟨a, ha, hcr⟩ => ?_⟩
  have ha := (getElem?_marked.1 ha).1
  rw [hcr] at ha
  exact ⟨⟨0x0A, .source (i + 1)⟩, getElem?_marked.2 ⟨hreturns i ha, rfl⟩, rfl⟩

/-- The range of an edit that parts no pair ends behind no carriage return. -/
theorem Turn.not_return (h : Turn source edits e c tail)
    (hreturns : ∀ i : Nat, source[i]? = some 0x0D → source[i + 1]? = some 0x0A)
    (hsplit : ¬ SplitsPair source e.stop) :
    (source.take c ++ bytesOf tail)[e.stop - 1]? ≠ some 0x0D := by
  have hpos : 0 < e.stop := Nat.lt_of_le_of_lt (Nat.zero_le _) h.proper
  have hlt : e.stop - 1 < e.stop := Nat.sub_one_lt_of_lt hpos
  rw [← List.getElem?_take_of_lt hlt, take_buffer _ h.inside h.stop_le,
    List.getElem?_take_of_lt hlt]
  intro hcr
  have hlf := hreturns _ hcr
  rw [Nat.sub_add_cancel hpos] at hlf
  exact hsplit ⟨hpos, hcr, hlf⟩

end

/-! ## Pairs in the output -/

/-- The first byte is a carriage return exactly if the second one is a line feed of the source, and
a line feed that was put there took the place of a removed line break. -/
def Pairs (source : Bytes) (edits : List Edit) (x y : Option Mark) : Prop :=
  ((∃ a ∈ x, a.byte = 0x0D) ↔ ∃ b ∈ y, b.byte = 0x0A ∧ ∃ p, b.origin = .source p) ∧
    ∀ b ∈ y, b.byte = 0x0A → ∀ e, b.origin = .edit e → BreaksLine source edits e

section
variable {source : Bytes} {edits : List Edit} {e : Edit} {c : Nat} {tail : List Mark}

/-- Paired carriage returns are followed by line feeds. -/
theorem Beside.returns {marks : List Mark} (h : Beside (Pairs source edits) marks) :
    Beside Returns marks :=
  h.imp fun _ _ hpairs hcr => by
    obtain ⟨b, hb, hlf, -⟩ := hpairs.1.1 hcr
    exact ⟨b, hb, hlf⟩

/-- Nothing is paired of a byte that is no carriage return and one that is no line feed, or one in
the place of a removed line break. -/
theorem pairs_apart (x y : Option Mark) (hx : ∀ a ∈ x, a.byte ≠ 0x0D)
    (hy : ∀ b ∈ y, b.byte = 0x0A → ∃ e, b.origin = .edit e ∧ BreaksLine source edits e) :
    Pairs source edits x y := by
  refine ⟨⟨fun ⟨a, ha, hcr⟩ => absurd hcr (hx a ha), fun ⟨b, hb, hlf, p, hp⟩ => ?_⟩,
    fun b hb hlf e he => ?_⟩
  · obtain ⟨e, he, -⟩ := hy b hb hlf
    rw [hp] at he
    cases he
  · obtain ⟨e', he', hbreaks⟩ := hy b hb hlf
    rw [he, Origin.edit.injEq] at he'
    rwa [he']

/-- Bytes that an edit puts in break no pair if they have no carriage return, and a line feed only
in the place of a removed one. -/
theorem pairs_putMarks {as bs : List Mark} {bytes : Bytes} (has : Opens (Pairs source edits) as)
    (hbs : Closes (Pairs source edits) bs) (hlast : ∀ a ∈ as.getLast?, a.byte ≠ 0x0D)
    (hhead : ∀ b ∈ bs.head?, b.byte = 0x0A → ∃ e, b.origin = .edit e ∧ BreaksLine source edits e)
    (hbytes : ∀ x ∈ bytes, x ≠ 0x0D ∧ (x = 0x0A → BreaksLine source edits e)) :
    Beside (Pairs source edits) (as ++ (putMarks e bytes ++ bs)) := by
  refine beside_between pairs_apart has hbs hlast hhead fun m hm => ?_
  obtain ⟨x, hx, rfl⟩ := List.mem_map.1 hm
  obtain ⟨hcr, hlf⟩ := hbytes x hx
  refine ⟨fun a ha => ?_, fun b hb hbyte => ?_⟩
  · rwa [← Option.mem_some_iff.1 ha]
  · rw [← Option.mem_some_iff.1 hb] at hbyte ⊢
    exact ⟨e, rfl, hlf hbyte⟩

/-- No line feed of the source stands first behind a position that is behind no carriage return. -/
theorem Beside.head_drop {marks : List Mark} (h : Beside (Pairs source edits) marks) {i : Nat}
    (hi : i ≤ marks.length) (hcr : (bytesOf marks)[i - 1]? ≠ some 0x0D) :
    ∀ b ∈ (marks.drop i).head?, b.byte = 0x0A →
      ∃ e, b.origin = .edit e ∧ BreaksLine source edits e := by
  intro b hb hlf
  obtain ⟨hpairs, hbreaks⟩ := h.at i
  cases horigin : b.origin with
  | source p =>
      obtain ⟨a, ha, hreturn⟩ := hpairs.2 ⟨b, hb, hlf, p, horigin⟩
      rw [List.getLast?_eq_getElem?, List.length_take_of_le hi] at ha
      have hpos : i - 1 < i := by
        refine Nat.sub_one_lt fun hzero => ?_
        rw [hzero] at ha
        cases ha
      rw [List.getElem?_take_of_lt hpos] at ha
      rw [bytesOf, List.getElem?_map, ha, Option.map_some, hreturn] at hcr
      exact absurd rfl hcr
  | edit e => exact ⟨e, rfl, hbreaks b hb hlf e horigin⟩

/-- A removal puts in a line feed only in the place of a removed one. -/
theorem Turn.breaksLine (h : Turn source edits e c tail)
    (hin : ∀ d ∈ edits, d.start < d.stop ∧ d.stop ≤ source.length) (hrem : e.isRemoval = true)
    {s : Span} (htidies : s.Tidies (source.take c ++ bytesOf tail) e.start e.stop) :
    0x0A ∈ s.replacement → BreaksLine source edits e := by
  cases htidies with
  | line | trailing | leading | closed => exact fun hlf => absurd hlf List.not_mem_nil
  | spaced => exact fun hlf => absurd (List.mem_singleton.1 hlf) (by decide)
  | broken hstart hend hbreak =>
      intro _
      rw [h.leftOf_eq, h.startsLine_eq] at hstart
      rw [slice, take_buffer _ h.inside h.stop_le] at hbreak
      refine ⟨h.mem, hrem, hbreak, hstart, fun hrest => ?_⟩
      rw [h.endsLine_of_restBlank hin hrest] at hend
      cases hend

/-- **Every splice keeps the pairs.** -/
theorem splicesKeep_pairs (hin : ∀ d ∈ edits, d.start < d.stop ∧ d.stop ≤ source.length)
    (hsource : Paired source)
    (hsplit : ∀ d ∈ edits, ¬ SplitsPair source d.start ∧ ¬ SplitsPair source d.stop)
    (hreplacement : ∀ d ∈ edits, ∀ b ∈ encode d.replacement, isLineBreak b = false) :
    SplicesKeep source edits fun c tail =>
      Beside (Pairs source edits) ((marked source).take c ++ tail) where
  removal := by
    intro e c tail s hturn hrem htidies hbeside
    obtain ⟨hstart, hstop⟩ := hsplit e hturn.mem
    have hremoves := htidies.removes hturn.stop_le_length
    have hleft := hremoves.leftOf_le
    rw [hturn.leftOf_eq] at hleft
    have hlen : s.stop ≤ ((marked source).take c ++ tail).length := by
      have := hremoves.inside
      rwa [← bytesOf_buffer, bytesOf, List.length_map] at this
    have hreturns := hbeside.returns.lineFeed_of_return
    rw [bytesOf_buffer] at hreturns
    have hnot := htidies.not_return hreturns (hturn.not_return hsource.returns hstop)
    rw [← bytesOf_buffer] at hnot
    refine pairs_putMarks (hturn.opens hbeside hremoves.start_le) (hbeside.closes_drop _)
      (not_return_take hsource.returns hleft hremoves.start_le
        (Nat.le_trans hturn.start_le hturn.inside) hstart)
      (hbeside.head_drop hlen hnot) fun x hx => ⟨htidies.not_return_put x hx, fun hlf => ?_⟩
    exact hturn.breaksLine hin hrem htidies (hlf ▸ hx)
  replacement := by
    intro e c tail hturn _ hbeside
    obtain ⟨hstart, hstop⟩ := hsplit e hturn.mem
    have hlen : e.stop ≤ ((marked source).take c ++ tail).length := by
      have := hturn.stop_le_length
      rwa [← bytesOf_buffer, bytesOf, List.length_map] at this
    have hnot := hturn.not_return hsource.returns hstop
    rw [← bytesOf_buffer] at hnot
    refine pairs_putMarks (hturn.opens hbeside (Nat.le_refl _)) (hbeside.closes_drop _)
      (not_return_take hsource.returns (leftOf_le _ _) (Nat.le_refl _)
        (Nat.le_trans hturn.start_le hturn.inside) hstart)
      (hbeside.head_drop hlen hnot) fun x hx => ?_
    have hx := hreplacement e hturn.mem x hx
    constructor
    · rintro rfl
      cases hx
    · rintro rfl
      cases hx

/-- In a source with two bytes at each line end the neighbours are paired. -/
theorem pairs_marked (edits : List Edit) (hsource : Paired source) :
    Beside (Pairs source edits) (marked source) := by
  have hbyte : ∀ {i : Nat} {m : Mark}, (marked source)[i]? = some m → source[i]? = some m.byte :=
    fun hm => (getElem?_marked.1 hm).1
  have hnot : ∀ {i : Nat}, ∀ b ∈ (marked source)[i]?, ∀ e, b.origin ≠ .edit e := by
    intro i b hb e he
    rw [(getElem?_marked.1 hb).2] at he
    cases he
  refine beside_iff.2 ⟨pairs_apart _ _ (fun a ha => nomatch ha) fun b hb hlf => ?_, fun i _ =>
    ⟨⟨fun ⟨a, ha, hcr⟩ => ?_, fun ⟨b, hb, hlf, _⟩ => ?_⟩,
      fun b hb _ e he => absurd he (hnot b hb e)⟩⟩
  · have hb := hbyte hb
    rw [hlf] at hb
    exact absurd (hsource.feeds 0 hb).1 (Nat.lt_irrefl 0)
  · have ha := hbyte ha
    rw [hcr] at ha
    have hlf := hsource.returns i ha
    exact ⟨⟨0x0A, .source (i + 1)⟩, getElem?_marked.2 ⟨hlf, rfl⟩, rfl, _, rfl⟩
  · have hb := hbyte hb
    rw [hlf] at hb
    have hcr := (hsource.feeds _ hb).2
    exact ⟨⟨0x0D, .source i⟩, getElem?_marked.2 ⟨hcr, rfl⟩, rfl⟩

/-- Where the neighbours are paired, the text is exactly if no line feed was put in. -/
theorem Beside.paired_iff {marks : List Mark} (h : Beside (Pairs source edits) marks) :
    Paired (bytesOf marks) ↔ ∀ m ∈ marks, m.byte = 0x0A → ∃ p, m.origin = .source p := by
  have hbyte : ∀ (i : Nat) (b : UInt8), (bytesOf marks)[i]? = some b ↔
      ∃ m, marks[i]? = some m ∧ m.byte = b := fun i b => by
    rw [bytesOf, List.getElem?_map, Option.map_eq_some_iff]
  constructor
  · intro hpaired m hm hlf
    obtain ⟨i, hi⟩ := List.mem_iff_getElem?.1 hm
    obtain ⟨hpos, hcr⟩ := hpaired.feeds i ((hbyte i _).2 ⟨m, hi, hlf⟩)
    obtain ⟨a, ha, hcr⟩ := (hbyte _ _).1 hcr
    have hlt : i - 1 < marks.length := (List.getElem?_eq_some_iff.1 ha).1
    obtain ⟨b, hb, -, horigin⟩ := ((beside_iff.1 h).2 _ hlt).1.1 ⟨a, ha, hcr⟩
    rw [Nat.sub_add_cancel hpos, hi, Option.mem_some_iff] at hb
    rwa [hb]
  · refine fun hfeeds => ⟨h.returns.lineFeed_of_return, fun i hlf => ?_⟩
    obtain ⟨m, hi, hlf'⟩ := (hbyte i _).1 hlf
    obtain ⟨p, hp⟩ := hfeeds m (List.mem_of_getElem? hi) hlf'
    cases i with
    | zero =>
        obtain ⟨a, ha, -⟩ := (beside_iff.1 h).1.1.2 ⟨m, hi, hlf', p, hp⟩
        cases ha
    | succ i =>
        have hlt : i < marks.length :=
          Nat.lt_of_succ_lt (List.getElem?_eq_some_iff.1 hi).1
        obtain ⟨a, ha, hcr⟩ := ((beside_iff.1 h).2 i hlt).1.2 ⟨m, hi, hlf', p, hp⟩
        exact ⟨Nat.succ_pos i, (hbyte i _).2 ⟨a, ha, hcr⟩⟩

/-- **Line ends stay pairs.** Spaced edits that part no carriage return from its line feed and put
in no line break leave every carriage return with its line feed, and every line feed of the source
with its carriage return. A line feed that comes alone was put in by a removal that takes a line
feed with other text before it on its line and behind it; the output is paired exactly if none was,
so that it is if there is no such removal. -/
theorem lineEnds_paired (h : Spaced source edits) (hsource : Paired source)
    (hsplit : ∀ e ∈ edits, ¬ SplitsPair source e.start ∧ ¬ SplitsPair source e.stop)
    (hreplacement : ∀ e ∈ edits, ∀ b ∈ encode e.replacement, isLineBreak b = false) :
    ∃ marks, traced? source edits = some marks ∧ spliced? source edits = some (bytesOf marks) ∧
      (∀ i : Nat, (bytesOf marks)[i]? = some 0x0D → (bytesOf marks)[i + 1]? = some 0x0A) ∧
      (∀ m ∈ marks, m.byte = 0x0A → ∀ e, m.origin = .edit e → BreaksLine source edits e) ∧
      (Paired (bytesOf marks) ↔ ∀ m ∈ marks, m.byte = 0x0A → ∃ p, m.origin = .source p) ∧
      ((∀ e, ¬ BreaksLine source edits e) → Paired (bytesOf marks)) := by
  have hstart : Beside (Pairs source edits) ((marked source).take source.length ++ []) := by
    rw [List.append_nil, List.take_of_length_le (Nat.le_of_eq (length_marked source))]
    exact pairs_marked edits hsource
  obtain ⟨c, tail, htrace, -, hbeside⟩ := h.exists_traced hstart
    (splicesKeep_pairs h.inside hsource hsplit hreplacement)
  have hbreaks : ∀ m ∈ (marked source).take c ++ tail, m.byte = 0x0A →
      ∀ e, m.origin = .edit e → BreaksLine source edits e := by
    intro m hm hlf e he
    obtain ⟨i, hi⟩ := List.mem_iff_getElem?.1 hm
    obtain ⟨hfirst, hnext⟩ := beside_iff.1 hbeside
    cases i with
    | zero => exact hfirst.2 m hi hlf e he
    | succ i =>
        have hlt := (List.getElem?_eq_some_iff.1 hi).1
        exact (hnext i (Nat.lt_of_succ_lt hlt)).2 m hi hlf e he
  refine ⟨_, htrace, spliced?_of_traced? htrace, hbeside.returns.lineFeed_of_return, hbreaks,
    hbeside.paired_iff, fun hnone => hbeside.paired_iff.2 fun m hm hlf => ?_⟩
  cases horigin : m.origin with
  | source p => exact ⟨p, rfl⟩
  | edit e => exact absurd (hbreaks m hm hlf e horigin) (hnone e)

end

/-- A comment at the end of a line, and one over two lines with nothing beside it. -/
def pairedLines : Bytes := encode "f // a\r\n/* b\r\n*/\r\ng\r\n"

/-- Both comments go, and the line ends stay pairs. -/
theorem lineEnds_paired_twoComments :
    let edits : List Edit := [⟨2, 6, ""⟩, ⟨8, 16, ""⟩]
    Spaced pairedLines edits ∧ Paired pairedLines ∧
      spliced? pairedLines edits = some (encode "f\r\ng\r\n") ∧ Paired (encode "f\r\ng\r\n") := by
  have hspaced : Spaced pairedLines [⟨2, 6, ""⟩, ⟨8, 16, ""⟩] := by decide +kernel
  have hpaired : Paired pairedLines := by decide +kernel
  have hbefore : ∀ e ∈ ([⟨2, 6, ""⟩, ⟨8, 16, ""⟩] : List Edit),
      0x0A ∈ slice pairedLines e.start e.stop →
        startsLine pairedLines (leftOf pairedLines e.start) = true := by decide +kernel
  have hmarks : (traced? pairedLines [⟨2, 6, ""⟩, ⟨8, 16, ""⟩]).map bytesOf =
      some (encode "f\r\ng\r\n") := by
    have hlisted : List.Perm [⟨2, 6, ""⟩, ⟨8, 16, ""⟩] ([⟨2, 6, ""⟩, ⟨8, 16, ""⟩] : List Edit) :=
      .refl _
    rw [traced?_eq hlisted (by decide)]
    decide +kernel
  obtain ⟨marks, htrace, hout, -, -, -, hkept⟩ :=
    lineEnds_paired hspaced hpaired (by decide +kernel) (by decide +kernel)
  have hnone : ∀ e, ¬ BreaksLine pairedLines [⟨2, 6, ""⟩, ⟨8, 16, ""⟩] e := by
    intro e hbreaks
    have hstarts := hbefore e hbreaks.mem hbreaks.lineFeed
    rw [hbreaks.before] at hstarts
    cases hstarts
  rw [htrace, Option.map_some, Option.some.injEq] at hmarks
  rw [hmarks] at hout hkept
  exact ⟨hspaced, hpaired, hout, hkept hnone⟩

/-- **A line feed comes alone** in the place of a comment over two lines between two names. -/
theorem lineEnds_mixed :
    let source := encode "a/*\r\n*/b"
    let edits : List Edit := [⟨1, 7, ""⟩]
    Spaced source edits ∧ Paired source ∧
      (∀ e ∈ edits, ¬ SplitsPair source e.start ∧ ¬ SplitsPair source e.stop) ∧
      (∀ e ∈ edits, ∀ b ∈ encode e.replacement, isLineBreak b = false) ∧
      spliced? source edits = some (encode "a\nb") ∧ ¬ Paired (encode "a\nb") := by
  refine ⟨?_, ?_, ?_, ?_, ?_, ?_⟩
  all_goals decide +kernel

end ScriptScrub.Edit
