import ScriptScrub.Edit.Basic

/-!
# Splicing edits into a text

Edits are applied from the last to the first, so that the offsets of those still to come stay
those of the source. A removal takes the white space that it would leave behind with it: a line
that holds nothing else goes with its terminator, the blanks at the end of a line go, and between
two tokens one blank, or one line break if the removed text had one, stays where it is needed.
-/

namespace ScriptScrub.Edit

/-- A space or a tab. -/
def isBlank (b : UInt8) : Bool := b == 0x20 || b == 0x09

/-- A carriage return or a line feed. -/
def isLineBreak (b : UInt8) : Bool := b == 0x0D || b == 0x0A

/-- A bracket after which no space is needed. -/
def isOpening (b : UInt8) : Bool := b == 0x28 || b == 0x5B || b == 0x7B

/-- A bracket or separator before which no space is needed. -/
def isClosing (b : UInt8) : Bool := b == 0x29 || b == 0x5D || b == 0x7D || b == 0x3B || b == 0x2C

/-- The mark that may open a text. -/
def byteOrderMark : Bytes := [0xEF, 0xBB, 0xBF]

/-- A range of a buffer and the bytes that take its place. -/
structure Span where
  start : Nat
  stop : Nat
  replacement : Bytes
deriving Repr, DecidableEq

/-- The start of a range, moved over the blanks before it. -/
def leftOf (buffer : Bytes) (start : Nat) : Nat :=
  start - ((buffer.take start).reverse.takeWhile isBlank).length

/-- The end of a range, moved over the blanks after it. -/
def rightOf (buffer : Bytes) (stop : Nat) : Nat :=
  stop + ((buffer.drop stop).takeWhile isBlank).length

/-- Nothing but a byte order mark precedes `left` on its line. -/
def startsLine (buffer : Bytes) (left : Nat) : Bool :=
  left == 0 || buffer[left - 1]? == some 0x0A ||
    (left == byteOrderMark.length && buffer.take left == byteOrderMark)

/-- Nothing follows `right` on its line. -/
def endsLine (buffer : Bytes) (right : Nat) : Bool :=
  match buffer[right]? with
  | none => true
  | some b => isLineBreak b

/-- The position after the line terminator at `right`, if there is one. -/
def afterTerminator (buffer : Bytes) (right : Nat) : Nat :=
  let right := if buffer[right]? = some 0x0D then right + 1 else right
  if buffer[right]? = some 0x0A then right + 1 else right

/-- The span that removes `start … stop` from the buffer and leaves tidy text, or `none` if an end
of the range lies outside the buffer. -/
def removalSpan (buffer : Bytes) (start stop : Nat) : Option Span :=
  if buffer.length < start ∨ buffer.length < stop then none
  else
    let left := leftOf buffer start
    let right := rightOf buffer stop
    some <|
      match startsLine buffer left, endsLine buffer right with
      | true, true => ⟨left, afterTerminator buffer right, []⟩
      | false, true => ⟨left, right, []⟩
      | true, false => ⟨start, right, []⟩
      | false, false =>
        if ((buffer.take stop).drop start).contains 0x0A then ⟨left, right, [0x0A]⟩
        else if (buffer[left - 1]?).any isOpening || (buffer[right]?).any isClosing then
          ⟨left, right, []⟩
        else ⟨left, right, [0x20]⟩

/-- Puts the replacement of `s` in the place of its range. A range that ends before it starts is
empty and lies at its start. -/
def Span.splice (s : Span) (buffer : Bytes) : Bytes :=
  buffer.take s.start ++ s.replacement ++ buffer.drop (max s.start s.stop)

/-- The span of an edit in a buffer, or `none` for a removal that reaches outside it. -/
def span (buffer : Bytes) (e : Edit) : Option Span :=
  if e.isRemoval then removalSpan buffer e.start e.stop
  else some ⟨e.start, e.stop, Text.encode e.replacement⟩

/-- Applies the edits in the order of the list. -/
def spliceEach : List Edit → Bytes → Option Bytes
  | [], buffer => some buffer
  | e :: es, buffer => (e.span buffer).bind fun s => spliceEach es (s.splice buffer)

/-- The edits by descending start; edits with the same start keep their order. -/
def lastFirst (edits : List Edit) : List Edit :=
  edits.mergeSort fun a b => b.start ≤ a.start

/-- Applies the edits to a source, the last one first, or `none` if a removal reaches outside what
the edits before it left. -/
def spliced? (source : Bytes) (edits : List Edit) : Option Bytes :=
  spliceEach (lastFirst edits) source

end ScriptScrub.Edit
