import ScriptScrub.Script.Phrase

/-!
# Tokens

Words, punctuation, numbers, texts in quotes and regular expressions.
-/

namespace ScriptScrub.Script

/-- Words that are never names. -/
def reservedWords : List String :=
  ["break", "case", "catch", "class", "const", "continue", "debugger", "default", "delete", "do",
   "else", "extends", "false", "finally", "for", "function", "if", "import", "in", "instanceof",
   "new", "null", "return", "super", "switch", "this", "throw", "true", "try", "typeof", "var",
   "void", "while", "with"]

/-- Everything that punctuation is written with, longer signs before those that begin them. -/
def signs : List String :=
  [">>>=", "...", "===", "!==", "**=", "<<=", ">>=", ">>>", "&&=", "||=", "??=", "=>", "==", "!=",
   "<=", ">=", "&&", "||", "??", "?.", "++", "--", "+=", "-=", "*=", "/=", "%=", "&=", "|=", "^=",
   "<<", ">>", "**", "\x7b", "\x7d", "(", ")", "[", "]", ";", ",", "<", ">", "+", "-", "*", "/",
   "%", "&", "|", "^", "!", "~", "?", ":", "=", ".", "@", "#"]

namespace Input
variable (input : Input)

/-- The longest sign at a position. A question mark before a point and a digit stands alone. -/
def signAt? (i : Nat) : Option String :=
  match signs.find? fun s => input.startsAt i s.toList with
  | some "?." => if (input.char (i + 2)).isDigit then some "?" else some "?."
  | found => found

/-- The sign that stands before the next token, or is it. -/
def nextSign (i : Nat) : String := (input.signAt? (input.skipTrivia i)).getD ""

/-- The word that is the next token, if it is one. -/
def nextWord (i : Nat) : String := input.wordAt (input.skipTrivia i)

/-- The end of digits of a class, single underscores between them, if there are any. -/
def digitsEnd? (p : Char → Bool) (i : Nat) : Option Nat :=
  let rec rest : Nat → Nat → Nat
    | 0, j => j
    | n + 1, j =>
      if p (input.char j) then rest n (j + 1)
      else if input.char j == '_' && p (input.char (j + 1)) then rest n (j + 2)
      else j
  if p (input.char i) then some (rest (input.size - i) (i + 1)) else none

/-- The end of an exponent, or the position itself. -/
def exponentEnd (i : Nat) : Nat :=
  if input.char i == 'e' || input.char i == 'E' then
    let j := if input.char (i + 1) == '+' || input.char (i + 1) == '-' then i + 2 else i + 1
    (input.digitsEnd? Char.isDigit j).getD i
  else i

/-- The digits that a number with a letter for its base may have. -/
def baseDigits? (c : Char) : Option (Char → Bool) :=
  if c == 'x' || c == 'X' then some isHexDigit
  else if c == 'b' || c == 'B' then some fun c => c == '0' || c == '1'
  else if c == 'o' || c == 'O' then some fun c => '0' ≤ c && c ≤ '7'
  else none

/-- The end of the number that begins at a position. -/
def numberEnd? (i : Nat) : Option Nat :=
  let big (j : Nat) : Nat := if input.char j == 'n' then j + 1 else j
  let based := if input.char i == '0' then
      (baseDigits? (input.char (i + 1))).bind fun p => input.digitsEnd? p (i + 2)
    else none
  match based with
  | some j => some (big j)
  | none =>
    if input.char i == '.' then (input.digitsEnd? Char.isDigit (i + 1)).map input.exponentEnd
    else match input.digitsEnd? Char.isDigit i with
      | none => none
      | some j =>
        -- a number with a leading zero has no fraction, unless it is zero itself
        let plain := input.char i != '0' || j == i + 1 || (input.char (i + 1)).isDigit &&
          input.char (i + 1) != '0'
        if input.char j == '.' && plain then
          let k := (input.digitsEnd? Char.isDigit (j + 1)).getD (j + 1)
          some (input.exponentEnd k)
        else
          let k := input.exponentEnd j
          if k == j then some (big j) else some k

/-- The end of the escape in a quoted text that begins at a position. -/
def escapeEnd? (i : Nat) : Option Nat :=
  if input.char i != '\\' || input.size ≤ i + 1 then none
  else
    let c := input.char (i + 1)
    if c == 'x' then
      if isHexDigit (input.char (i + 2)) && isHexDigit (input.char (i + 3)) then some (i + 4)
      else none
    else if c == 'u' then input.escapedCharEnd? i
    else if '0' ≤ c && c ≤ '7' then
      some (input.skipWhile (fun c => '0' ≤ c && c ≤ '7') 3 (i + 1))
    else if c == '\r' && (input.char (i + 2) == '\n' || isLineSeparator (input.char (i + 2))) then
      some (i + 3)
    else some (i + 2)

/-- The end of the pattern of a regular expression: a slash inside brackets does not end it. -/
def patternEnd : Nat → Bool → Nat → Nat
  | 0, _, i => i
  | n + 1, inBrackets, i =>
    let c := input.char i
    if input.size ≤ i || c == '\n' then i
    else if c == '\\' then
      if input.size ≤ i + 1 || input.char (i + 1) == '\n' then i
      else patternEnd n inBrackets (i + 2)
    else if inBrackets then patternEnd n (c != ']') (i + 1)
    else if c == '/' then i
    else patternEnd n (c == '[') (i + 1)

/-- The end of plain text in a template. -/
def templateTextEnd : Nat → Nat → Nat
  | 0, i => i
  | n + 1, i =>
    let c := input.char i
    if input.size ≤ i || c == '\x60' || c == '\\' ||
        (c == '$' && input.char (i + 1) == '\x7b') then i
    else templateTextEnd n (i + 1)

/-- The end of text between markup tags, if it is more than white space around line breaks. -/
def markupTextEnd? : Nat → Bool → Bool → Nat → Option Nat
  | 0, text, _, i => if text then some i else none
  | n + 1, text, atBreak, i =>
    let c := input.char i
    if input.size ≤ i || "<>\x7b\x7d&".toList.contains c then (if text then some i else none)
    else if c == '\n' then markupTextEnd? n text true (i + 1)
    else
      let atBreak := atBreak && isBreakingSpace c
      markupTextEnd? n (text || !atBreak) atBreak (i + 1)

end Input

namespace Phrase

/-- A sign. -/
def sign (s : String) : Phrase :=
  token s false fun input i => if input.signAt? i == some s then some (i + s.length) else none

/-- One of some signs. -/
def signOf (ss : List String) : Phrase := fun input i =>
  let start := input.skipTrivia i
  match input.signAt? start with
  | some s =>
    if ss.contains s then some ([leaf s false start (start + s.length)], start + s.length) else none
  | none => none

/-- A single mark, whatever marks follow it. -/
def mark (c : Char) : Phrase :=
  token (String.singleton c) false fun input i =>
    if input.size ≤ i then none else if input.char i == c then some (i + 1) else none

/-- A word that the grammar writes out. -/
def word (s : String) : Phrase :=
  token s false fun input i =>
    if input.wordAt i == s then some (i + s.length) else none

/-- A word that the grammar writes out and that has a name as a node. -/
def namedWord (s : String) : Phrase := renamed s (word s)

/-- One of some words. -/
def wordOf (ss : List String) : Phrase := choice (ss.map word)

/-- A word that is a name. -/
def identifier : Phrase :=
  token "identifier" true fun input i =>
    if reservedWords.contains (input.wordAt i) then none else input.wordEnd? i

/-- Any word, as the name of a property. -/
def propertyWord : Phrase := token "property_identifier" true fun input i => input.wordEnd? i

/-- A name that belongs to a class alone. -/
def privateName : Phrase :=
  token "private_property_identifier" true fun input i =>
    if input.char i == '#' then input.wordEnd? (i + 1) else none

/-- A number. -/
def number : Phrase := token "number" true fun input i => input.numberEnd? i

/-- An escape in a quoted text. -/
def escape : Phrase := immediate "escape_sequence" true fun input i => input.escapeEnd? i

/-- A run of plain characters in a quoted text. -/
def fragment (quote : Char) : Phrase :=
  immediate "string_fragment" true fun input i =>
    let j := input.skip (fun c => c != quote && c != '\\' && c != '\n' && c != '\r') i
    if i < j then some j else none

/-- A text between two quotes of a kind. -/
def quoted (quote : Char) : Phrase :=
  node "string" [mark quote, many (choice [fragment quote, escape]),
    immediate (String.singleton quote) false fun input i =>
      if input.char i == quote then some (i + 1) else none]

/-- A text in quotes. -/
def text : Phrase := choice [quoted '"', quoted '\'']

/-- A regular expression. -/
def regex : Phrase :=
  node "regex" [
    token "/" false fun input i =>
      if input.char i == '/' && input.char (i + 1) != '/' && input.char (i + 1) != '*' then
        some (i + 1)
      else none,
    field "pattern" (immediate "regex_pattern" true fun input i =>
      let j := input.patternEnd (input.size - i) false i
      if i < j then some j else none),
    immediate "/" false fun input i => if input.char i == '/' then some (i + 1) else none,
    maybe (immediate "regex_flags" true fun input i =>
      let j := input.skip (fun c => 'a' ≤ c && c ≤ 'z') i
      if i < j then some j else none)]

/-- Goes to where the statement ends, the semicolon being left out. -/
def lineEnd (afterOperand : Bool) : Phrase := fun input i =>
  (input.statementEnd? afterOperand i).map fun j => ([], j)

/-- The end of a statement: a semicolon, or a place where one may be left out. -/
def semicolon (afterOperand : Bool) : Phrase := choice [lineEnd afterOperand, sign ";"]

/-- A phrase in round brackets. -/
def parens (p : Phrase) : Phrase := seq [mark '(', p, mark ')']

/-- A phrase in square brackets. -/
def brackets (p : Phrase) : Phrase := seq [mark '[', p, mark ']']

/-- A phrase in braces. -/
def braces (p : Phrase) : Phrase := seq [mark '\x7b', p, mark '\x7d']

/-- A list of phrases between commas, each of which may be left out. -/
def sparse (p : Phrase) : Phrase := seq [maybe p, many (seq [sign ",", maybe p])]

/-- A list of at least one phrase between commas, a comma allowed at its end. -/
def listed (p : Phrase) : Phrase := seq [separated (sign ",") p, maybe (sign ",")]

end Phrase

end ScriptScrub.Script
