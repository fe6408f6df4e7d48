import ScriptScrub.Yaml.Fault

/-!
# Reading documents

Where the reading of a document has come to, and the characters that end a line, a word or the
document. A text is read with all its line ends written as line feeds.
-/

namespace ScriptScrub.Yaml

/-- The characters still to read, and the place of the first of them. -/
structure Cursor where
  rest : List Char
  index : Nat := 0
  line : Nat := 0
  column : Nat := 0
deriving Repr, Inhabited

/-- What is seen after the last character. -/
def theEnd : Char := '\x00'

/-- A character that ends a line. -/
def isBreak (c : Char) : Bool := c == '\n' || c == '\u0085' || c == '\u2028' || c == '\u2029'

/-- The end of a line or of the document. -/
def isLineEnd (c : Char) : Bool := c == theEnd || isBreak c

/-- A space, or the end of a line. -/
def isSpaceOrEnd (c : Char) : Bool := c == ' ' || isLineEnd c

/-- White space, or the end of a line. -/
def isGap (c : Char) : Bool := c == '\t' || isSpaceOrEnd c

/-- The mark at the beginning of a text that tells its encoding. -/
def byteOrderMark : Char := '\uFEFF'

/-- A character that a document may hold. -/
def isAllowed (c : Char) : Bool :=
  let n := c.toNat
  n == 0x09 || n == 0x0A || n == 0x0D || (0x20 ≤ n && n ≤ 0x7E) || n == 0x85 ||
    (0xA0 ≤ n && n ≤ 0xD7FF) || (0xE000 ≤ n && n ≤ 0xFFFD) || 0x10000 ≤ n

/-- A text with every line end of its file written as a line feed. -/
def unifyLineEnds : List Char → List Char
  | '\r' :: '\n' :: rest => '\n' :: unifyLineEnds rest
  | '\r' :: rest => '\n' :: unifyLineEnds rest
  | c :: rest => c :: unifyLineEnds rest
  | [] => []

namespace Cursor

/-- The character at a distance. -/
def peekAt (c : Cursor) (distance : Nat) : Char := c.rest.getD distance theEnd

/-- The next character. -/
def peek (c : Cursor) : Char := c.rest.headD theEnd

/-- Steps over one character. -/
def next (c : Cursor) : Cursor :=
  match c.rest with
  | [] => c
  | d :: rest =>
    if isBreak d then { rest, index := c.index + 1, line := c.line + 1, column := 0 }
    else { c with
      rest, index := c.index + 1, column := if d == byteOrderMark then c.column else c.column + 1 }

/-- Steps over some characters. -/
def advance : Nat → Cursor → Cursor
  | 0, c => c
  | n + 1, c => advance n c.next

/-- Steps over all characters of a class; they are the first part of the result. -/
def span (p : Char → Bool) (c : Cursor) : List Char × Cursor :=
  let taken := c.rest.takeWhile p
  (taken, c.advance taken.length)

/-- Steps over all characters of a class. -/
def skip (p : Char → Bool) (c : Cursor) : Cursor := (c.span p).2

/-- Steps over the end of a line, which reads as a line feed unless it is one of the two separators
that stay as they are. -/
def lineBreak (c : Cursor) : Char × Cursor :=
  let d := c.peek
  (if d == '\u0085' then '\n' else d, c.next)

/-- Steps over the comment that begins here, if one does. -/
def comment (c : Cursor) : Cursor := if c.peek == '#' then c.skip (!isLineEnd ·) else c

/-- Do three such characters and a gap stand here? -/
def isTriple (c : Cursor) (d : Char) : Bool := c.rest.take 3 == [d, d, d] && isGap (c.peekAt 3)

/-- Does a mark between documents stand here? -/
def isSeparator (c : Cursor) : Bool := c.isTriple '-' || c.isTriple '.'

end Cursor

/-- A letter, a digit, a dash or an underscore. -/
def isNameChar (c : Char) : Bool := c.isAlphanum || c == '-' || c == '_'

/-- A character of a tag. -/
def isTagChar (c : Char) : Bool := c.isAlphanum || "-;/?:@&=+$,_.!~*'()[]%".toList.contains c

/-- The value of a digit to the base sixteen. -/
def hexValue? (c : Char) : Option Nat :=
  if c.isDigit then some (c.toNat - 48)
  else if 'a' ≤ c ∧ c ≤ 'f' then some (c.toNat - 87)
  else if 'A' ≤ c ∧ c ≤ 'F' then some (c.toNat - 55)
  else none

/-- The value that some digits to the base sixteen write. -/
def hexNumber? (cs : List Char) : Option Nat :=
  cs.foldlM (fun n c => (hexValue? c).map (n * 16 + ·)) 0

end ScriptScrub.Yaml
