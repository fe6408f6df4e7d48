import ScriptScrub.Proofs.Edit.Origin

/-!
# Neighbours in the output

A relation between neighbours holds all through a text (`Beside`) if it holds in two parts of it
and where they meet (`beside_append`). A splice makes at most two new meetings, so that such a
relation is kept if it holds there. Bytes that a removal brings together need no space between them
(`NeedNoSpace`), so that removals join no two tokens (`neighbours_needNoSpace`).
-/

namespace ScriptScrub.Edit

open Text (encode)

/-! ## Relations between neighbours -/

/-- A relation that holds between any two neighbours of a text, and between its ends and nothing. -/
def Beside (R : Option Mark → Option Mark → Prop) (marks : List Mark) : Prop :=
  (none :: marks.map some ++ [none]).IsChain R

/-- A relation that holds between any two neighbours of a text, and between nothing and its first
byte. -/
def Opens (R : Option Mark → Option Mark → Prop) (marks : List Mark) : Prop :=
  (none :: marks.map some).IsChain R

/-- A relation that holds between any two neighbours of a text, and between its last byte and
nothing. -/
def Closes (R : Option Mark → Option Mark → Prop) (marks : List Mark) : Prop :=
  (marks.map some ++ [none]).IsChain R

section
variable {R : Option Mark → Option Mark → Prop} {as bs marks : List Mark} {m : Mark}

/-- What stands last in a text that begins with nothing. -/
theorem getLast?_none_cons (marks : List Mark) :
    (none :: marks.map some).getLast? = some marks.getLast? := by
  rw [List.getLast?_cons, List.getLast?_map]
  cases marks.getLast? <;> rfl

/-- What stands first in a text that ends with nothing. -/
theorem head?_concat_none (marks : List Mark) :
    (marks.map some ++ [none]).head? = some marks.head? := by
  cases marks <;> rfl

/-- **Neighbours in two texts** one after the other are those in each, and the two where they
meet. -/
theorem beside_append :
    Beside R (as ++ bs) ↔ Opens R as ∧ Closes R bs ∧ R as.getLast? bs.head? := by
  have hsplit : (none :: (as ++ bs).map some ++ [none]) =
      (none :: as.map some) ++ (bs.map some ++ [none]) := by
    rw [List.map_append, List.cons_append, List.cons_append, List.append_assoc]
  rw [Beside, hsplit, List.isChain_append, getLast?_none_cons, head?_concat_none]
  simp only [Option.mem_some_iff, forall_eq']
  exact Iff.rfl

/-- Neighbours in two texts of which the second one ends with nothing. -/
theorem closes_append :
    Closes R (as ++ bs) ↔
      (as.map some).IsChain R ∧ Closes R bs ∧ ∀ m ∈ as.getLast?, R (some m) bs.head? := by
  rw [Closes, List.map_append, List.append_assoc, List.isChain_append, head?_concat_none,
    List.getLast?_map]
  simp only [Option.mem_def, Option.map_eq_some_iff, Option.some.injEq, forall_eq',
    forall_exists_index, and_imp, forall_apply_eq_imp_iff₂]
  exact Iff.rfl

/-- Neighbours up to a position. -/
theorem Beside.opens_take (h : Beside R marks) (i : Nat) : Opens R (marks.take i) := by
  rw [← List.take_append_drop i marks] at h
  exact (beside_append.1 h).1

/-- Neighbours from a position on. -/
theorem Beside.closes_drop (h : Beside R marks) (i : Nat) : Closes R (marks.drop i) := by
  rw [← List.take_append_drop i marks] at h
  exact (beside_append.1 h).2.1

/-- Neighbours around a position. -/
theorem Beside.at (h : Beside R marks) (i : Nat) :
    R (marks.take i).getLast? (marks.drop i).head? := by
  rw [← List.take_append_drop i marks] at h
  exact (beside_append.1 h).2.2

/-- A relation that another one implies holds wherever that does. -/
theorem Beside.imp {S : Option Mark → Option Mark → Prop} (h : Beside R marks)
    (himp : ∀ x y, R x y → S x y) : Beside S marks :=
  List.IsChain.imp himp h

/-- Neighbours where bytes are put in between two texts. -/
theorem beside_between {X Y : Option Mark → Prop} (hR : ∀ x y, X x → Y y → R x y)
    {put : List Mark} (has : Opens R as) (hbs : Closes R bs) (hlast : X as.getLast?)
    (hhead : Y bs.head?) (hput : ∀ m ∈ put, X (some m) ∧ Y (some m)) :
    Beside R (as ++ (put ++ bs)) := by
  refine beside_append.2 ⟨has, closes_append.2 ⟨?_, hbs, fun m hm => ?_⟩, hR _ _ hlast ?_⟩
  · rw [List.isChain_map]
    exact List.Pairwise.isChain (List.pairwise_of_forall_mem_list fun a ha b hb =>
      hR _ _ (hput a ha).1 (hput b hb).2)
  · exact hR _ _ (hput m (List.mem_of_mem_getLast? hm)).1 hhead
  · rw [List.head?_append]
    cases hfirst : put.head? with
    | none => rwa [Option.none_or]
    | some m => exact (hput m (List.mem_of_mem_head? hfirst)).2

/-- Two bytes one after the other are neighbours. -/
theorem Beside.pair {before after : List Mark} {x y : Mark} (h : Beside R marks)
    (hmarks : marks = before ++ x :: y :: after) : R (some x) (some y) := by
  have hsplit : marks = (before ++ [x]) ++ y :: after := by
    rw [hmarks, List.append_assoc, List.singleton_append]
  rw [hsplit, beside_append, List.getLast?_concat, List.head?_cons] at h
  exact h.2.2

/-- **A relation holds all through a text** if it holds between nothing and its first byte, and from
each byte on to the next one, or to nothing. -/
theorem beside_iff :
    Beside R marks ↔ R none marks[0]? ∧ ∀ i < marks.length, R marks[i]? marks[i + 1]? := by
  have behind : ∀ (x : Option Mark) (marks : List Mark), (x :: marks.map some ++ [none]).IsChain R ↔
      R x marks[0]? ∧ ∀ i < marks.length, R marks[i]? marks[i + 1]? := by
    intro x marks
    induction marks generalizing x with
    | nil => simp
    | cons m ms ih =>
        rw [List.map_cons, List.cons_append, List.cons_append, List.isChain_cons_cons,
          ← List.cons_append, ih, List.length_cons, Nat.forall_lt_succ_left]
        exact Iff.rfl
  exact behind none marks

end

/-! ## Bytes that need no space between them -/

/-- The byte `first` at the position `p` and the byte `second` need no space between them: one of
them is white space, a bracket opens or closes there, a separator follows, or the first one ends the
byte order mark. -/
def NeedNoSpace (source : Bytes) (p : Nat) (first second : UInt8) : Prop :=
  isSpacing first = true ∨ isSpacing second = true ∨ isOpening first = true ∨
    isClosing second = true ∨ byteOrderMark <+: source ∧ p + 1 = byteOrderMark.length

section
variable {source buffer : Bytes} {start stop : Nat} {s : Span} {b d : UInt8}

/-- A byte before the start of a line is a line feed, or it ends the byte order mark. -/
theorem needNoSpace_of_startsLine {left : Nat} (h : startsLine buffer left = true)
    (hpos : 0 < left) (hb : buffer[left - 1]? = some b) : NeedNoSpace buffer (left - 1) b d := by
  rcases startsLine_iff.1 h with rfl | h | ⟨hmark, rfl⟩
  · exact absurd hpos (Nat.lt_irrefl 0)
  · rw [hb, Option.some.injEq] at h
    subst h
    exact .inl rfl
  · exact .inr (.inr (.inr (.inr ⟨hmark, rfl⟩)))

/-- **A removal that puts nothing in** brings bytes together that need no space between them. -/
theorem Span.Tidies.needNoSpace (h : s.Tidies buffer start stop) (hstart : start ≤ buffer.length)
    (hput : s.replacement = []) (hpos : 0 < s.start) (hb : buffer[s.start - 1]? = some b)
    (hd : buffer[s.stop]? = some d) : NeedNoSpace buffer (s.start - 1) b d := by
  cases h with
  | line hline => exact needNoSpace_of_startsLine hline hpos hb
  | trailing _ hend =>
      rw [endsLine, hd] at hend
      exact .inr (.inl (Bool.or_eq_true_iff.2 (.inr hend)))
  | leading hline =>
      rcases Nat.eq_or_lt_of_le (leftOf_le buffer start) with heq | hlt
      · rw [heq] at hline
        exact needNoSpace_of_startsLine hline hpos hb
      · -- The blanks before the range stay.
        have hmem : b ∈ slice buffer (leftOf buffer start) start :=
          mem_slice_iff.2 ⟨start - 1, by omega, by omega, hb⟩
        exact .inl (Bool.or_eq_true_iff.2 (.inl (isBlank_of_mem_slice_leftOf hstart hmem)))
  | closed _ _ _ hbeside =>
      rw [hb, hd] at hbeside
      rcases hbeside with hopen | hclose
      · exact .inr (.inr (.inl hopen))
      · exact .inr (.inr (.inr (.inl hclose)))
  | broken | spaced => exact absurd hput (List.cons_ne_nil _ _)

/-- What bytes need depends on the start of the text only. -/
theorem NeedNoSpace.congr {p : Nat} (h : NeedNoSpace buffer p b d)
    (hsource : buffer.take (p + 1) = source.take (p + 1)) : NeedNoSpace source p b d := by
  refine h.imp_right (.imp_right (.imp_right (.imp_right fun ⟨hmark, hp⟩ => ⟨?_, hp⟩)))
  rw [List.prefix_iff_eq_take, ← hp] at hmark ⊢
  rw [hmark, hsource]

end

/-! ## Neighbours in the output -/

/-- Two neighbours of the source still are, or they need no space between them. -/
def Parted (source : Bytes) (x y : Option Mark) : Prop :=
  ∀ a b p q, x = some a → y = some b → a.origin = .source p → b.origin = .source q →
    q = p + 1 ∨ NeedNoSpace source p a.byte b.byte

section
variable {source : Bytes} {edits : List Edit} {e : Edit} {c : Nat} {tail : List Mark}

/-- The last byte of the source up to a position. -/
theorem getLast?_take_marked {i : Nat} {a : Mark} (hi : i ≤ source.length)
    (h : ((marked source).take i).getLast? = some a) :
    0 < i ∧ source[i - 1]? = some a.byte ∧ a.origin = .source (i - 1) := by
  rw [List.getLast?_take] at h
  split at h
  · cases h
  · next hne =>
    have hlt : i - 1 < (marked source).length := by
      rw [length_marked]
      omega
    rw [List.getElem?_eq_getElem hlt, Option.some_or, ← List.getElem?_eq_getElem hlt] at h
    exact ⟨by omega, getElem?_marked.1 h⟩

/-- The first byte of the buffer from a position on. -/
theorem head?_drop_buffer {i : Nat} {b : Mark}
    (h : (((marked source).take c ++ tail).drop i).head? = some b) :
    (source.take c ++ bytesOf tail)[i]? = some b.byte := by
  rw [List.head?_drop] at h
  rw [← bytesOf_buffer, bytesOf, List.getElem?_map, h, Option.map_some]

/-- Up to an edit whose turn it is, the neighbours are those of the buffer. -/
theorem Turn.opens {R : Option Mark → Option Mark → Prop} (h : Turn source edits e c tail)
    (hbeside : Beside R ((marked source).take c ++ tail)) {i : Nat} (hi : i ≤ e.start) :
    Opens R ((marked source).take i) := by
  rw [← take_marks h.inside (Nat.le_trans hi h.start_le) tail]
  exact hbeside.opens_take _

/-- Bytes that an edit puts in are parted from any other. -/
theorem parted_of_edit {x y : Option Mark} {m : Mark} (hm : m.origin = .edit e)
    (h : x = some m ∨ y = some m) : Parted source x y := by
  rintro a b p q rfl rfl ha hb
  rcases h with h | h
  · cases h
    rw [ha] at hm
    cases hm
  · cases h
    rw [hb] at hm
    cases hm

/-- Neighbours are parted where an edit puts bytes in. -/
theorem parted_putMarks {as bs : List Mark} {bytes : Bytes} (has : Opens (Parted source) as)
    (hbs : Closes (Parted source) bs) (hbytes : bytes ≠ []) :
    Beside (Parted source) (as ++ (putMarks e bytes ++ bs)) := by
  have horigin : ∀ m ∈ putMarks e bytes, m.origin = .edit e := fun m => origin_of_mem_putMarks
  refine beside_append.2 ⟨has, closes_append.2 ⟨?_, hbs, fun m hm => ?_⟩, ?_⟩
  · rw [List.isChain_map]
    refine List.Pairwise.isChain (List.pairwise_of_forall_mem_list fun a ha b _ => ?_)
    exact parted_of_edit (horigin a ha) (.inl rfl)
  · exact parted_of_edit (horigin m (List.mem_of_mem_getLast? hm)) (.inl rfl)
  · obtain ⟨b, bytes, rfl⟩ := List.exists_cons_of_ne_nil hbytes
    exact parted_of_edit (m := ⟨b, .edit e⟩) rfl (.inr rfl)

/-- **Every splice keeps neighbours parted.** -/
theorem splicesKeep_parted : SplicesKeep source edits fun c tail =>
    Beside (Parted source) ((marked source).take c ++ tail) where
  removal := by
    intro e c tail s hturn _ htidies hbeside
    have hremoves := htidies.removes hturn.stop_le_length
    have hle := hremoves.start_le
    have hopens := hturn.opens hbeside hle
    have hcloses := hbeside.closes_drop s.stop
    by_cases hput : s.replacement = []
    · rw [hput]
      refine beside_append.2 ⟨hopens, hcloses, ?_⟩
      intro a b p q ha hb hp _
      have hinside : s.start ≤ source.length :=
        Nat.le_trans (Nat.le_trans hle hturn.start_le) hturn.inside
      obtain ⟨hpos, hbyte, horigin⟩ := getLast?_take_marked hinside ha
      rw [hp, Origin.source.injEq] at horigin
      subst horigin
      have hbefore : (source.take c ++ bytesOf tail).take s.start = source.take s.start :=
        hturn.take_eq hle
      rw [← List.getElem?_take_of_lt (Nat.sub_one_lt_of_lt hpos), ← hbefore,
        List.getElem?_take_of_lt (Nat.sub_one_lt_of_lt hpos)] at hbyte
      refine .inr ((htidies.needNoSpace ?_ hput hpos hbyte (head?_drop_buffer hb)).congr ?_)
      · exact Nat.le_trans (Nat.le_of_lt hturn.proper) hturn.stop_le_length
      · rwa [Nat.sub_add_cancel hpos]
    · exact parted_putMarks hopens hcloses hput
  replacement := by
    intro e c tail hturn hrem hbeside
    have hbytes : encode e.replacement ≠ [] := encode_ne_nil hrem
    exact parted_putMarks (hturn.opens hbeside (Nat.le_refl _)) (hbeside.closes_drop _) hbytes

/-- Neighbours in the source are parted. -/
theorem parted_marked (source : Bytes) : Beside (Parted source) (marked source) := by
  refine beside_iff.2 ⟨fun a b p q ha => (nomatch ha), fun i _ a b p q ha hb hp hq => .inl ?_⟩
  obtain ⟨-, hi⟩ := getElem?_marked.1 ha
  obtain ⟨-, hi'⟩ := getElem?_marked.1 hb
  rw [hp, Origin.source.injEq] at hi
  rw [hq, Origin.source.injEq] at hi'
  omega

/-- **Removals join no tokens.** What the output takes from a position of the source stands there,
and two neighbours in the output that both come from the source are neighbours there too, or they
need no space between them. -/
theorem neighbours_needNoSpace (h : Spaced source edits) :
    ∃ marks, traced? source edits = some marks ∧ spliced? source edits = some (bytesOf marks) ∧
      (∀ m ∈ marks, ∀ i, m.origin = .source i → source[i]? = some m.byte) ∧
      ∀ before x y after p q, marks = before ++ x :: y :: after → x.origin = .source p →
        y.origin = .source q → q = p + 1 ∨ NeedNoSpace source p x.byte y.byte := by
  have hsource : Beside (Parted source) ((marked source).take source.length ++ []) := by
    rw [List.append_nil, List.take_of_length_le (Nat.le_of_eq (length_marked source))]
    exact parted_marked source
  obtain ⟨c, tail, htrace, -, hbeside⟩ := h.exists_traced hsource splicesKeep_parted
  refine ⟨_, htrace, spliced?_of_traced? htrace, fun m hm i => getElem?_of_traced? htrace hm, ?_⟩
  intro before x y after p q hmarks hp hq
  exact hbeside.pair hmarks x y p q rfl rfl hp hq

end

/-- A call with a comment before its bracket and one behind it, and a comment at the end of the
line. -/
def commentedCall : Bytes := encode "f /* a */ ( /* b */ x ) // c\n;"

/-- The bracket and what follows the second comment need no space between them. -/
theorem neighbours_needNoSpace_commentedCall :
    let edits : List Edit := [⟨24, 28, ""⟩, ⟨2, 9, ""⟩, ⟨12, 19, ""⟩]
    Spaced commentedCall edits ∧ spliced? commentedCall edits = some (encode "f (x )\n;") ∧
      ∃ marks before after, traced? commentedCall edits = some marks ∧
        marks = before ++ ⟨0x28, .source 10⟩ :: ⟨0x78, .source 20⟩ :: after ∧
        NeedNoSpace commentedCall 10 0x28 0x78 := by
  have hspaced : Spaced commentedCall [⟨24, 28, ""⟩, ⟨2, 9, ""⟩, ⟨12, 19, ""⟩] := by decide +kernel
  have hmarks : traced? commentedCall [⟨24, 28, ""⟩, ⟨2, 9, ""⟩, ⟨12, 19, ""⟩] =
      some ([⟨0x66, .source 0⟩, ⟨0x20, .edit ⟨2, 9, ""⟩⟩] ++
        ⟨0x28, .source 10⟩ :: ⟨0x78, .source 20⟩ :: [⟨0x20, .source 21⟩, ⟨0x29, .source 22⟩,
          ⟨0x0A, .source 28⟩, ⟨0x3B, .source 29⟩]) := by
    have hlisted : List.Perm [⟨24, 28, ""⟩, ⟨2, 9, ""⟩, ⟨12, 19, ""⟩]
        ([⟨2, 9, ""⟩, ⟨12, 19, ""⟩, ⟨24, 28, ""⟩] : List Edit) := by decide +kernel
    rw [traced?_eq hlisted (by decide)]
    decide +kernel
  obtain ⟨marks, htrace, hout, -, hneighbours⟩ := neighbours_needNoSpace hspaced
  rw [hmarks, Option.some.injEq] at htrace
  refine ⟨hspaced, ?_, marks, _, _, htrace ▸ hmarks, htrace.symm, ?_⟩
  · rw [hout, ← htrace]
    decide +kernel
  · exact (hneighbours _ _ _ _ 10 20 htrace.symm rfl rfl).resolve_left (by decide)

end ScriptScrub.Edit
