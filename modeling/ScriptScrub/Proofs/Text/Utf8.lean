import Mathlib.Data.List.Basic
import ScriptScrub.Text.Utf8

/-!
# UTF-8 texts

The bytes that spell characters (`IsText`) can be read (`decode?_encodeChars`). They stay such
bytes when they are cut between two characters (`IsText.take`, `IsText.drop`) and when bytes below
`0x80`, each of which is a character, are taken from their front (`IsText.of_append`).
-/

namespace ScriptScrub.Text

/-- The bytes spell a sequence of characters. -/
def IsText (bytes : Bytes) : Prop := ∃ cs : List Char, bytes = encodeChars cs

/-- A byte that continues a character. -/
def isTail (b : UInt8) : Bool := 0x80 ≤ b.toNat && b.toNat < 0xC0

/-- No character goes on at the position `i`. -/
structure OnBoundary (bytes : Bytes) (i : Nat) : Prop where
  inside : i ≤ bytes.length
  notTail : ∀ b, bytes[i]? = some b → isTail b = false

/-- Lying between two characters, as a test of the byte at the position. -/
theorem onBoundary_iff {bytes : Bytes} {i : Nat} :
    OnBoundary bytes i ↔ i ≤ bytes.length ∧ bytes[i]?.any isTail = false := by
  constructor
  · intro h
    refine ⟨h.inside, ?_⟩
    cases hb : bytes[i]? with
    | none => rfl
    | some b => exact h.notTail b hb
  · rintro ⟨hinside, hnone⟩
    refine ⟨hinside, fun b hb => ?_⟩
    rwa [hb] at hnone

instance (bytes : Bytes) (i : Nat) : Decidable (OnBoundary bytes i) :=
  decidable_of_iff _ onBoundary_iff.symm

/-! ## The bytes of one code point -/

/-- The value of a byte that is made of a small number. -/
theorem toNat_ofNat {n : Nat} (h : n < 256) : (UInt8.ofNat n).toNat = n := by
  rw [UInt8.toNat_ofNat']
  exact Nat.mod_eq_of_lt h

/-- The value of a byte that continues a character. -/
theorem toNat_tailByte (n : Nat) : (tailByte n).toNat = 0x80 + n % 64 := toNat_ofNat (by omega)

/-- A byte that is written as one that continues a character is one. -/
theorem isTail_tailByte (n : Nat) : isTail (tailByte n) = true := by
  rw [isTail, toNat_tailByte]
  simp only [Bool.and_eq_true, decide_eq_true_eq]
  omega

/-- A byte that is made of a number outside the range of tail bytes is none. -/
theorem isTail_ofNat {n : Nat} (h : n < 256) (h' : n < 0x80 ∨ 0xC0 ≤ n) :
    isTail (UInt8.ofNat n) = false := by
  rw [isTail, toNat_ofNat h]
  simp only [Bool.and_eq_false_iff, decide_eq_false_iff_not]
  omega

/-- **The bytes of a code point** are one that continues no character and then bytes that do; there
are none of these if the first is below `0x80`. -/
theorem encodeCodePoint_eq {c : Nat} (h : c < 0x110000) :
    ∃ first tails, encodeCodePoint c = first :: tails ∧ isTail first = false ∧
      (∀ b ∈ tails, isTail b = true) ∧ (first.toNat < 0x80 → tails = []) := by
  have long : ∀ {n : Nat} {tails : Bytes}, n < 256 → 0xC0 ≤ n →
      (UInt8.ofNat n).toNat < 0x80 → tails = [] := fun hn hn' hlt => by
    rw [toNat_ofNat hn] at hlt
    omega
  rw [encodeCodePoint]
  by_cases h₁ : c < 0x80
  · rw [if_pos h₁]
    exact ⟨_, _, rfl, isTail_ofNat (by omega) (by omega), by simp, fun _ => rfl⟩
  rw [if_neg h₁]
  by_cases h₂ : c < 0x800
  · rw [if_pos h₂]
    exact ⟨_, _, rfl, isTail_ofNat (by omega) (by omega), by simp [isTail_tailByte],
      long (by omega) (by omega)⟩
  rw [if_neg h₂]
  by_cases h₃ : c < 0x10000
  · rw [if_pos h₃]
    exact ⟨_, _, rfl, isTail_ofNat (by omega) (by omega), by simp [isTail_tailByte],
      long (by omega) (by omega)⟩
  · rw [if_neg h₃]
    exact ⟨_, _, rfl, isTail_ofNat (by omega) (by omega), by simp [isTail_tailByte],
      long (by omega) (by omega)⟩

/-- A character is a code point. -/
theorem char_lt (c : Char) : c.toNat < 0x110000 := by
  rcases c.valid with h | h
  · exact Nat.lt_trans h (by decide)
  · exact h.2

/-- The code point of the character of a code point. -/
theorem toNat_charOfNat {n : Nat} (h : n.isValidChar) : (Char.ofNat n).toNat = n := by
  rw [Char.ofNat, dif_pos h]
  rfl

/-- The number of bytes of a code point. -/
theorem length_encodeCodePoint (c : CodePoint) : (encodeCodePoint c).length = width c := by
  unfold encodeCodePoint width
  split
  · rfl
  split
  · rfl
  split <;> rfl

/-! ## Texts -/

/-- The bytes of characters are a text. -/
theorem isText_encodeChars (cs : List Char) : IsText (encodeChars cs) := ⟨cs, rfl⟩

/-- The bytes of a string are a text. -/
theorem isText_encode (s : String) : IsText (encode s) := isText_encodeChars _

/-- No bytes at all are a text. -/
theorem isText_nil : IsText [] := isText_encodeChars []

/-- The bytes of the first of some characters come first. -/
theorem encodeChars_cons (c : Char) (cs : List Char) :
    encodeChars (c :: cs) = encodeCodePoint c.toNat ++ encodeChars cs := List.flatMap_cons

/-- The bytes of one character are a text. -/
theorem isText_encodeCodePoint (c : Char) : IsText (encodeCodePoint c.toNat) :=
  ⟨[c], (List.flatMap_singleton _ _).symm⟩

/-- A text after a text is a text. -/
theorem IsText.append {as bs : Bytes} (ha : IsText as) (hb : IsText bs) : IsText (as ++ bs) := by
  obtain ⟨cs, rfl⟩ := ha
  obtain ⟨ds, rfl⟩ := hb
  exact ⟨cs ++ ds, List.flatMap_append.symm⟩

/-- Bytes below `0x80` are a text. -/
theorem isText_of_forall_lt {bytes : Bytes} (h : ∀ b ∈ bytes, b.toNat < 0x80) : IsText bytes := by
  refine ⟨bytes.map fun b => Char.ofNat b.toNat, ?_⟩
  rw [encodeChars, List.flatMap_map]
  conv_lhs => rw [← List.flatMap_singleton' bytes]
  refine List.flatMap_congr fun b hb => ?_
  have hlt := h b hb
  have hval : (Char.ofNat b.toNat).toNat = b.toNat := toNat_charOfNat (.inl (by omega))
  rw [hval, encodeCodePoint, if_pos hlt, UInt8.ofNat_toNat]

/-- Characters below `0x80` are one byte each. -/
theorem encodeChars_of_forall_lt {cs : List Char} (h : ∀ c ∈ cs, c.toNat < 0x80) :
    encodeChars cs = cs.map fun c => UInt8.ofNat c.toNat := by
  induction cs with
  | nil => rfl
  | cons c cs ih =>
      obtain ⟨hc, hcs⟩ := List.forall_mem_cons.1 h
      rw [encodeChars_cons, ih hcs, encodeCodePoint, if_pos hc]
      rfl

/-- Between bytes below `0x80` no character goes on. -/
theorem onBoundary_of_forall_lt {bytes : Bytes} (h : ∀ b ∈ bytes, b.toNat < 0x80) {i : Nat}
    (hi : i ≤ bytes.length) : OnBoundary bytes i where
  inside := hi
  notTail b hb := by
    have hlt := h b (List.mem_of_getElem? hb)
    rw [isTail, decide_eq_false (by omega), Bool.false_and]

/-- Without a byte below `0x80` at its front a text is a text. -/
theorem IsText.of_cons {b : UInt8} {bytes : Bytes} (h : IsText (b :: bytes))
    (hb : b.toNat < 0x80) : IsText bytes := by
  obtain ⟨_ | ⟨c, cs⟩, hcs⟩ := h
  · exact nomatch hcs
  · obtain ⟨first, tails, heq, -, -, htails⟩ := encodeCodePoint_eq (char_lt c)
    rw [encodeChars_cons, heq, List.cons_append, List.cons.injEq] at hcs
    obtain ⟨rfl, hbytes⟩ := hcs
    rw [htails hb, List.nil_append] at hbytes
    exact ⟨cs, hbytes⟩

/-- Without some bytes below `0x80` at its front a text is a text. -/
theorem IsText.of_append {as bs : Bytes} (h : IsText (as ++ bs))
    (ha : ∀ b ∈ as, b.toNat < 0x80) : IsText bs := by
  induction as with
  | nil => exact h
  | cons a as ih =>
      exact ih (h.of_cons (ha a List.mem_cons_self)) fun b hb => ha b (List.mem_cons_of_mem _ hb)

/-! ## Cuts -/

/-- **A cut between two characters** leaves a text on both sides. -/
theorem IsText.cut {bytes : Bytes} (h : IsText bytes) {i : Nat} (hi : OnBoundary bytes i) :
    IsText (bytes.take i) ∧ IsText (bytes.drop i) := by
  obtain ⟨cs, rfl⟩ := h
  induction cs generalizing i with
  | nil =>
      rw [encodeChars, List.flatMap_nil, List.take_nil, List.drop_nil]
      exact ⟨isText_nil, isText_nil⟩
  | cons c cs ih =>
      rw [encodeChars_cons] at hi ⊢
      by_cases hlt : i < (encodeCodePoint c.toNat).length
      · -- Inside the first character only the position before its first byte is a boundary.
        obtain ⟨first, tails, heq, -, htails, -⟩ := encodeCodePoint_eq (char_lt c)
        cases i with
        | zero =>
            rw [List.take_zero, List.drop_zero, ← encodeChars_cons]
            exact ⟨isText_nil, isText_encodeChars _⟩
        | succ i =>
            rw [heq, List.length_cons, Nat.succ_lt_succ_iff] at hlt
            have hbyte : (encodeCodePoint c.toNat ++ encodeChars cs)[i + 1]? = some tails[i] := by
              rw [heq, List.cons_append, List.getElem?_cons_succ, List.getElem?_append_left hlt,
                List.getElem?_eq_getElem hlt]
            have hfalse := hi.notTail _ hbyte
            rw [htails _ (List.getElem_mem hlt)] at hfalse
            cases hfalse
      · have hle := Nat.le_of_not_lt hlt
        have hcut : OnBoundary (encodeChars cs) (i - (encodeCodePoint c.toNat).length) := by
          constructor
          · have := hi.inside
            rw [List.length_append] at this
            omega
          · intro b hb
            refine hi.notTail b ?_
            rw [List.getElem?_append_right hle, hb]
        obtain ⟨htake, hdrop⟩ := ih hcut
        rw [List.take_append, List.drop_append, List.take_of_length_le hle,
          List.drop_of_length_le hle, List.nil_append]
        exact ⟨(isText_encodeCodePoint c).append htake, hdrop⟩

/-! ## Encoding -/

/-- A code point that is no surrogate stands for a character. -/
theorem isValidChar_of_isSurrogate {c : Nat} (h : c < 0x110000) (hc : isSurrogate c = false) :
    c.isValidChar := by
  have hc : (decide (0xD800 ≤ c) && decide (c ≤ 0xDFFF)) = false := hc
  simp only [Bool.and_eq_false_iff, decide_eq_false_iff_not] at hc
  rw [Nat.isValidChar]
  omega

/-- **Code points that can be encoded** are encoded as a text. -/
theorem isText_of_encode? {text : List CodePoint} {source : Bytes}
    (htext : ∀ c ∈ text, c < 0x110000) (h : encode? text = some source) : IsText source := by
  rw [encode?] at h
  split at h
  · cases h
  · next hsurrogate =>
    cases h
    refine ⟨text.map Char.ofNat, ?_⟩
    rw [encodeChars, List.flatMap_map]
    refine List.flatMap_congr fun c hc => ?_
    simp only [List.any_eq_true, not_exists, not_and, Bool.not_eq_true] at hsurrogate
    rw [toNat_charOfNat (isValidChar_of_isSurrogate (htext c hc) (hsurrogate c hc))]

/-- **The code points of a string** can be encoded, as the string is. -/
theorem encode?_toNat (s : String) : encode? (s.toList.map (·.toNat)) = some (encode s) := by
  have hnone : ¬ (s.toList.map (·.toNat)).any isSurrogate = true := by
    rw [List.any_map, List.any_eq_true]
    rintro ⟨c, -, hc⟩
    have hvalid : c.toNat.isValidChar := c.valid
    rw [Nat.isValidChar] at hvalid
    rw [Function.comp_apply, isSurrogate, Bool.and_eq_true, decide_eq_true_eq,
      decide_eq_true_eq] at hc
    have hrange : 0xD800 ≤ c.toNat ∧ c.toNat ≤ 0xDFFF := hc
    omega
  rw [encode?, if_neg hnone, List.flatMap_map]
  rfl

/-! ## Decoding -/

/-- A byte that continues a character and passes the bounds is read. -/
theorem continuation_tailByte {value lo hi taken count n : Nat} {rest : Bytes}
    (hlo : lo ≤ 0x80 + n % 64) (hhi : 0x80 + n % 64 ≤ hi) :
    continuation value lo hi taken (count + 1) (tailByte n :: rest) =
      continuation (value * 64 + n % 64) 0x80 0xBF (taken + 1) count rest := by
  rw [continuation, toNat_tailByte, if_pos ⟨hlo, hhi⟩, Nat.add_sub_cancel_left]

/-- Every byte that continues a character passes the wide bounds. -/
theorem continuation_wide_tailByte {value taken count n : Nat} {rest : Bytes} :
    continuation value 0x80 0xBF taken (count + 1) (tailByte n :: rest) =
      continuation (value * 64 + n % 64) 0x80 0xBF (taken + 1) count rest :=
  continuation_tailByte (by omega) (by omega)

/-- **The bytes of a character** are read as that character. -/
theorem firstPiece_encodeCodePoint (c : Char) (rest : Bytes) :
    ∃ first tails, encodeCodePoint c.toNat = first :: tails ∧
      firstPiece first (tails ++ rest) = .char c := by
  have hc : ∀ n, n = c.toNat → Piece.char (Char.ofNat n) = .char c := by
    rintro n rfl
    rw [Char.ofNat_toNat]
  have hvalid : c.toNat.isValidChar := c.valid
  rw [Nat.isValidChar] at hvalid
  generalize c.toNat = n at hc hvalid
  rw [encodeCodePoint]
  by_cases h₁ : n < 0x80
  · refine ⟨_, _, by rw [if_pos h₁], ?_⟩
    rw [firstPiece, toNat_ofNat (by omega), if_pos h₁, hc _ rfl]
  by_cases h₂ : n < 0x800
  · refine ⟨_, _, by rw [if_neg h₁, if_pos h₂], ?_⟩
    rw [firstPiece, toNat_ofNat (by omega), if_neg (by omega), if_neg (by omega),
      if_pos (by omega), List.cons_append, continuation_wide_tailByte, continuation,
      hc _ (by omega)]
  by_cases h₃ : n < 0x10000
  · refine ⟨_, _, by rw [if_neg h₁, if_neg h₂, if_pos h₃], ?_⟩
    rw [firstPiece, toNat_ofNat (by omega), if_neg (by omega), if_neg (by omega),
      if_neg (by omega), if_pos (by omega), List.cons_append, List.cons_append,
      continuation_tailByte, continuation_wide_tailByte, continuation, hc _ (by omega)]
    · split <;> omega
    · split <;> omega
  · refine ⟨_, _, by rw [if_neg h₁, if_neg h₂, if_neg h₃], ?_⟩
    rw [firstPiece, toNat_ofNat (by omega), if_neg (by omega), if_neg (by omega),
      if_neg (by omega), if_neg (by omega), if_pos (by omega), List.cons_append, List.cons_append,
      List.cons_append, continuation_tailByte, continuation_wide_tailByte,
      continuation_wide_tailByte, continuation, hc _ (by omega)]
    · split <;> omega
    · split <;> omega

/-- Skipping bytes is dropping them. -/
theorem piecesAfter_eq (skip : Nat) (bytes : Bytes) :
    piecesAfter skip bytes = pieces (bytes.drop skip) := by
  induction bytes generalizing skip with
  | nil => cases skip <;> rfl
  | cons b bytes ih =>
      cases skip with
      | zero => rfl
      | succ skip => rw [piecesAfter, ih, List.drop_succ_cons]

/-- The pieces of the bytes of characters are the characters. -/
theorem pieces_encodeChars (cs : List Char) : pieces (encodeChars cs) = cs.map .char := by
  induction cs with
  | nil => rfl
  | cons c cs ih =>
      obtain ⟨first, tails, heq, hpiece⟩ := firstPiece_encodeCodePoint c (encodeChars cs)
      have hlen := length_encodeCodePoint c.toNat
      rw [heq, List.length_cons] at hlen
      rw [encodeChars_cons, heq, List.cons_append, pieces, piecesAfter, hpiece, piecesAfter_eq,
        Piece.width, ← hlen, Nat.add_sub_cancel, List.drop_left, ih, List.map_cons]

/-- Pieces without a fault are characters. -/
theorem charsOf?_map_char (cs : List Char) : charsOf? (cs.map .char) = some cs := by
  induction cs with
  | nil => rfl
  | cons c cs ih => rw [List.map_cons, charsOf?, ih, Option.map_some]

/-- Characters are read from their bytes. -/
theorem decodeChars?_encodeChars (cs : List Char) : decodeChars? (encodeChars cs) = some cs := by
  rw [decodeChars?, pieces_encodeChars, charsOf?_map_char]

/-- The characters of a string are read from its bytes. -/
theorem decodeChars?_encode (s : String) : decodeChars? (encode s) = some s.toList :=
  decodeChars?_encodeChars _

/-- **The bytes of characters** are read as these characters. -/
theorem decode?_encodeChars (cs : List Char) :
    decode? (encodeChars cs) = some (String.ofList cs) := by
  rw [decode?, decodeChars?_encodeChars, Option.map_some]

/-- A string is read from its bytes. -/
theorem decode?_encode (s : String) : decode? (encode s) = some s := by
  rw [encode, decode?_encodeChars, String.ofList_toList]

/-- A text can be read, and what is read is written as the text. -/
theorem IsText.decode? {bytes : Bytes} (h : IsText bytes) :
    ∃ s, Text.decode? bytes = some s ∧ encode s = bytes := by
  obtain ⟨cs, rfl⟩ := h
  exact ⟨_, decode?_encodeChars cs, by rw [encode, String.toList_ofList]⟩

/-! ## Reading back -/

/-- A byte that continues a character spells six bits of it. -/
theorem exists_tailByte {b : UInt8} (hlo : 0x80 ≤ b.toNat) (hhi : b.toNat ≤ 0xBF) :
    ∃ n < 64, b.toNat = 0x80 + n ∧ ∀ m, m % 64 = n → tailByte m = b := by
  refine ⟨b.toNat - 0x80, by omega, by omega, fun m hm => UInt8.toNat.inj ?_⟩
  rw [toNat_tailByte]
  omega

/-- A character whose bytes go on is spelled by the next byte and those after it. -/
theorem continuation_eq_char {value lo hi taken count : Nat} {bytes : Bytes} {c : Char}
    (hlo : 0x80 ≤ lo) (hhi : hi ≤ 0xBF)
    (h : continuation value lo hi taken (count + 1) bytes = .char c) :
    ∃ b rest n, bytes = b :: rest ∧ n < 64 ∧ lo ≤ 0x80 + n ∧ 0x80 + n ≤ hi ∧
      (∀ m, m % 64 = n → tailByte m = b) ∧
      continuation (value * 64 + n) 0x80 0xBF (taken + 1) count rest = .char c := by
  cases bytes with
  | nil => cases h
  | cons b rest =>
      rw [continuation] at h
      split at h
      · next hb =>
        obtain ⟨n, hn, hbn, htail⟩ :=
          exists_tailByte (Nat.le_trans hlo hb.1) (Nat.le_trans hb.2 hhi)
        rw [hbn] at h hb
        rw [Nat.add_sub_cancel_left] at h
        exact ⟨b, rest, n, rfl, hn, hb.1, hb.2, htail, h⟩
      · cases h

/-- The value that the bytes of a character spell is the character's. -/
theorem toNat_eq_of_continuation {value taken : Nat} {rest : Bytes} {c : Char}
    (hvalid : value.isValidChar) (h : continuation value 0x80 0xBF taken 0 rest = .char c) :
    c.toNat = value := by
  rw [continuation, Piece.char.injEq] at h
  rw [← h, toNat_charOfNat hvalid]

/-- **What is read as a character** are its bytes. -/
theorem firstPiece_eq_char {first : UInt8} {rest : Bytes} {c : Char}
    (h : firstPiece first rest = .char c) :
    ∃ tails rest', rest = tails ++ rest' ∧ encodeCodePoint c.toNat = first :: tails := by
  have hlt : first.toNat < 256 := first.toNat_lt
  have hfirst : ∀ n, n = first.toNat → UInt8.ofNat n = first := by
    rintro n rfl
    exact UInt8.ofNat_toNat
  rw [firstPiece] at h
  split at h
  · next hb =>
    have hc : c.toNat = first.toNat := by
      rw [Piece.char.injEq] at h
      rw [← h, toNat_charOfNat (.inl (by omega))]
    exact ⟨[], rest, rfl, by rw [encodeCodePoint, hc, if_pos hb, hfirst _ rfl]⟩
  split at h
  · cases h
  split at h
  · obtain ⟨b₁, rest₁, n₁, rfl, hn₁, -, -, htail₁, h⟩ :=
      continuation_eq_char (by omega) (by omega) h
    have hc := toNat_eq_of_continuation (.inl (by omega)) h
    have hwidth : ¬ c.toNat < 0x80 ∧ c.toNat < 0x800 := by omega
    refine ⟨[b₁], rest₁, rfl, ?_⟩
    rw [encodeCodePoint, if_neg hwidth.1, if_pos hwidth.2, hfirst _ (by omega),
      htail₁ _ (by omega)]
  split at h
  · obtain ⟨b₁, rest₁, n₁, rfl, hn₁, hlo, hhi, htail₁, h⟩ :=
      continuation_eq_char (by split <;> omega) (by split <;> omega) h
    obtain ⟨b₂, rest₂, n₂, rfl, hn₂, -, -, htail₂, h⟩ :=
      continuation_eq_char (by omega) (by omega) h
    have hvalid : (((first.toNat - 0xE0) * 64 + n₁) * 64 + n₂).isValidChar := by
      rw [Nat.isValidChar]
      split at hlo <;> split at hhi <;> omega
    have hc := toNat_eq_of_continuation hvalid h
    have hwidth : ¬ c.toNat < 0x80 ∧ ¬ c.toNat < 0x800 ∧ c.toNat < 0x10000 := by
      split at hlo <;> omega
    refine ⟨[b₁, b₂], rest₂, rfl, ?_⟩
    rw [encodeCodePoint, if_neg hwidth.1, if_neg hwidth.2.1, if_pos hwidth.2.2,
      hfirst _ (by omega), htail₁ _ (by omega), htail₂ _ (by omega)]
  split at h
  · obtain ⟨b₁, rest₁, n₁, rfl, hn₁, hlo, hhi, htail₁, h⟩ :=
      continuation_eq_char (by split <;> omega) (by split <;> omega) h
    obtain ⟨b₂, rest₂, n₂, rfl, hn₂, -, -, htail₂, h⟩ :=
      continuation_eq_char (by omega) (by omega) h
    obtain ⟨b₃, rest₃, n₃, rfl, hn₃, -, -, htail₃, h⟩ :=
      continuation_eq_char (by omega) (by omega) h
    have hvalid : ((((first.toNat - 0xF0) * 64 + n₁) * 64 + n₂) * 64 + n₃).isValidChar := by
      rw [Nat.isValidChar]
      split at hlo <;> split at hhi <;> omega
    have hc := toNat_eq_of_continuation hvalid h
    have hwidth : ¬ c.toNat < 0x80 ∧ ¬ c.toNat < 0x800 ∧ ¬ c.toNat < 0x10000 := by
      split at hlo <;> omega
    refine ⟨[b₁, b₂, b₃], rest₃, rfl, ?_⟩
    rw [encodeCodePoint, if_neg hwidth.1, if_neg hwidth.2.1, if_neg hwidth.2.2,
      hfirst _ (by omega), htail₁ _ (by omega), htail₂ _ (by omega), htail₃ _ (by omega)]
  · cases h

/-- **What is read as characters** are their bytes. -/
theorem encodeChars_of_decodeChars? {bytes : Bytes} {cs : List Char}
    (h : decodeChars? bytes = some cs) : encodeChars cs = bytes := by
  induction cs generalizing bytes with
  | nil =>
      cases bytes with
      | nil => rfl
      | cons b bytes =>
          rw [decodeChars?, pieces, piecesAfter] at h
          cases hpiece : firstPiece b bytes with
          | char c => simp [hpiece, charsOf?] at h
          | fault why n => simp [hpiece, charsOf?] at h
  | cons c cs ih =>
      cases bytes with
      | nil => cases h
      | cons b bytes =>
          rw [decodeChars?, pieces, piecesAfter] at h
          cases hpiece : firstPiece b bytes with
          | fault why n => simp [hpiece, charsOf?] at h
          | char d =>
              rw [hpiece, charsOf?, Option.map_eq_some_iff] at h
              obtain ⟨ds, hds, heq⟩ := h
              rw [List.cons.injEq] at heq
              obtain ⟨rfl, rfl⟩ := heq
              obtain ⟨tails, rest, rfl, htails⟩ := firstPiece_eq_char hpiece
              have hlen := length_encodeCodePoint d.toNat
              rw [htails, List.length_cons] at hlen
              rw [piecesAfter_eq, Piece.width, ← hlen, Nat.add_sub_cancel, List.drop_left] at hds
              rw [encodeChars_cons, htails, ih hds, List.cons_append]

/-- **A text that is read** is written as the bytes that it was read from. -/
theorem encode_of_decode? {bytes : Bytes} {s : String} (h : decode? bytes = some s) :
    encode s = bytes := by
  obtain ⟨cs, hcs, rfl⟩ := Option.map_eq_some_iff.1 h
  rw [encode, String.toList_ofList, encodeChars_of_decodeChars? hcs]

end ScriptScrub.Text
