import ScriptScrub.Dialect
import ScriptScrub.Text.Utf8

/-!
# The characters of a script

A script is read by character positions. This module holds its characters, the classes that they
fall into, and how far white space, comments and words reach.
-/

namespace ScriptScrub.Script

/-- The characters of a script and the dialect that they are read in. -/
structure Input where
  chars : Array Char
  dialect : Dialect
deriving Inhabited

namespace Input
variable (input : Input)

/-- The number of characters. -/
def size : Nat := input.chars.size

/-- The character at a position; the null character stands for the end. -/
def char (i : Nat) : Char := input.chars.getD i '\x00'

/-- Type annotations belong to the language. -/
def hasTypes : Bool := input.dialect != .javascript

/-- Markup belongs to the language. -/
def hasMarkup : Bool := input.dialect != .typescript

/-- The characters from `i` up to `j`. -/
def slice (i j : Nat) : List Char := (input.chars.extract i j).toList

/-- The text stands at the position. -/
def startsAt (i : Nat) : List Char → Bool
  | [] => true
  | c :: cs => i < input.size && input.char i == c && startsAt (i + 1) cs

/-- The first position from `i` on, within the next `n`, whose character is not in the class. -/
def skipWhile (p : Char → Bool) : Nat → Nat → Nat
  | 0, i => i
  | n + 1, i => if i < input.size && p (input.char i) then skipWhile p n (i + 1) else i

/-- The first position from `i` on whose character is not in the class. -/
def skip (p : Char → Bool) (i : Nat) : Nat := input.skipWhile p (input.size - i) i

end Input

/-! ### Character classes -/

/-- A space separator that is not the plain space. -/
def isWideSpace (c : Char) : Bool :=
  let n := c.toNat
  n == 0xA0 || n == 0x1680 || (0x2000 ≤ n && n ≤ 0x200A) || n == 0x202F || n == 0x205F ||
    n == 0x3000

/-- The two separators that end a line and are not control characters. -/
def isLineSeparator (c : Char) : Bool := c == '\u2028' || c == '\u2029'

/-- White space between tokens. -/
def isSpace (c : Char) : Bool :=
  let n := c.toNat
  (9 ≤ n && n ≤ 13) || n == 32 || isWideSpace c || isLineSeparator c ||
    n == 0xFEFF || n == 0x2060 || n == 0x200B

/-- White space that the rules on line ends look through: the spaces that do not break are not
among it. -/
def isBreakingSpace (c : Char) : Bool :=
  let n := c.toNat
  (9 ≤ n && n ≤ 13) || n == 32 || n == 0x1680 || (0x2000 ≤ n && n ≤ 0x2006) ||
    (0x2008 ≤ n && n ≤ 0x200A) || isLineSeparator c || n == 0x205F || n == 0x3000

/-- A character that ends a line comment. -/
def endsLineComment (c : Char) : Bool := c == '\n' || c == '\r' || isLineSeparator c

/-- A character that cannot be part of a word. -/
def isMark (c : Char) : Bool :=
  c.toNat < 32 || isSpace c || ":;`\"'@#.,|^&<=>+-*/\\%?!~()[]\x7b\x7d".toList.contains c

/-- A hexadecimal digit. -/
def isHexDigit (c : Char) : Bool :=
  c.isDigit || ('a' ≤ c && c ≤ 'f') || ('A' ≤ c && c ≤ 'F')

/-- A letter. Beyond the first 128 code points every character that a word may hold counts. -/
def isLetter (c : Char) : Bool := c.isAlpha || (128 ≤ c.toNat && !isMark c)

namespace Input
variable (input : Input)

/-! ### Comments and white space -/

/-- The end of the block comment whose text begins at `i`, if it is closed. -/
def blockEnd? : Nat → Nat → Option Nat
  | 0, _ => none
  | n + 1, i =>
    if input.char i == '*' && input.char (i + 1) == '/' then some (i + 2)
    else blockEnd? n (i + 1)

/-- The end of the comment that begins at a position. -/
def commentEnd? (i : Nat) : Option Nat :=
  if input.char i != '/' then none
  else if input.char (i + 1) == '/' then some (input.skip (!endsLineComment ·) (i + 2))
  else if input.char (i + 1) == '*' then input.blockEnd? (input.size - i) (i + 2)
  else none

/-- The end of the markup comment that begins at a position: it reaches to the end of the line. -/
def markupCommentEnd? (i : Nat) : Option Nat :=
  if input.startsAt i ['<', '!', '-', '-'] || input.startsAt i ['-', '-', '>'] then
    some (input.skip (!endsLineComment ·) i)
  else none

/-- Skips white space and comments, and markup comments too if `markup` is set. -/
def skipTriviaFor (markup : Bool) : Nat → Nat → Nat
  | 0, i => i
  | n + 1, i =>
    let j := input.skip isSpace i
    match input.commentEnd? j with
    | some k => skipTriviaFor markup n k
    | none =>
      if markup then
        match input.markupCommentEnd? j with
        | some k => skipTriviaFor markup n k
        | none => j
      else j

/-- The start of the next token. -/
def skipTrivia (i : Nat) : Nat := input.skipTriviaFor false (input.size + 1 - i) i

/-- The start of the next token at a place where a markup comment may stand. -/
def skipTriviaAndMarkup (i : Nat) : Nat := input.skipTriviaFor true (input.size + 1 - i) i

/-! ### Words -/

/-- The end of the escaped character that begins at a position. -/
def escapedCharEnd? (i : Nat) : Option Nat :=
  if input.char i != '\\' || input.char (i + 1) != 'u' then none
  else if input.char (i + 2) == '\x7b' then
    let j := input.skip isHexDigit (i + 3)
    if i + 3 < j && input.char j == '\x7d' then some (j + 1) else none
  else if (input.slice (i + 2) (i + 6)).length == 4 &&
      (input.slice (i + 2) (i + 6)).all isHexDigit then some (i + 6)
  else none

/-- The end of the rest of a word. -/
def wordRest : Nat → Nat → Nat
  | 0, i => i
  | n + 1, i =>
    if i < input.size && !isMark (input.char i) then wordRest n (i + 1)
    else match input.escapedCharEnd? i with
      | some j => wordRest n j
      | none => i

/-- The end of the word that begins at a position. -/
def wordEnd? (i : Nat) : Option Nat :=
  if i < input.size && !isMark (input.char i) && !(input.char i).isDigit then
    some (input.wordRest (input.size - i) (i + 1))
  else (input.escapedCharEnd? i).map (input.wordRest (input.size - i))

/-- The word that begins at a position, as it is written. -/
def wordAt (i : Nat) : String :=
  match input.wordEnd? i with
  | some j => String.ofList (input.slice i j)
  | none => ""

end Input

end ScriptScrub.Script
