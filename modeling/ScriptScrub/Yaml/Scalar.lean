import ScriptScrub.Yaml.Cursor

/-!
# Scalars

The four ways of writing a text: plain, between single or double quotes, and as a block of lines.
Lines are folded: a single line end reads as a space, each further one as a line feed.
-/

namespace ScriptScrub.Yaml

/-- The line ends `extra` after a first one, folded. -/
def folded (first : Char) (extra : List Char) : List Char :=
  if first != '\n' then first :: extra else if extra.isEmpty then [' '] else extra

/-! ## Plain scalars -/

/-- May a colon before this character end a plain scalar? -/
def endsKey (inFlow : Bool) (c : Char) : Bool :=
  isGap c || (inFlow && ",[]\x7b\x7d".toList.contains c)

/-- The part of a plain scalar up to the next space or its end. -/
def plainRun (inFlow : Bool) : List Char → List Char
  | [] => []
  | c :: rest =>
    if isGap c || (c == ':' && endsKey inFlow (rest.headD theEnd)) ||
        (inFlow && ",?[]\x7b\x7d".toList.contains c) then []
    else c :: plainRun inFlow rest

/-- Further line ends with the spaces around them; nothing if a mark between documents follows. -/
def plainBreaks : Nat → Cursor → Option (List Char) × Cursor
  | 0, c => (some [], c)
  | fuel + 1, c =>
    if c.peek == ' ' then plainBreaks fuel c.next
    else if isBreak c.peek then
      let (b, c) := c.lineBreak
      if c.isSeparator then (none, c)
      else
        let (bs, c) := plainBreaks fuel c
        (bs.map (b :: ·), c)
    else (some [], c)

/-- What a plain scalar has between two runs, and whether there is a line end in it. -/
def plainSpaces (c : Cursor) : List Char × Bool × Cursor :=
  let (spaces, c) := c.span (· == ' ')
  if isBreak c.peek then
    let (b, c) := c.lineBreak
    if c.isSeparator then ([], true, c)
    else match plainBreaks c.rest.length c with
      | (some bs, c) => (folded b bs, true, c)
      | (none, c) => ([], true, c)
  else (spaces, false, c)

/-- Reads a plain scalar whose lines are indented at least by `indent`; `spaces` and `broke` come
from before. Tells also whether the reading ended at the beginning of a line. -/
def plainFrom (inFlow : Bool) (indent : Int) :
    Nat → List Char → Bool → Cursor → List Char × Bool × Cursor
  | 0, _, broke, c => ([], broke, c)
  | fuel + 1, spaces, broke, c =>
    let run := plainRun inFlow c.rest
    if c.peek == '#' || run.isEmpty then ([], broke, c)
    else
      let (between, broke, c) := plainSpaces (c.advance run.length)
      if between.isEmpty || c.peek == '#' || (!inFlow && (c.column : Int) < indent) then
        (spaces ++ run, broke, c)
      else
        let (more, broke, c) := plainFrom inFlow indent fuel between broke c
        (spaces ++ run ++ more, broke, c)

/-! ## Quoted scalars -/

/-- What the character after a backslash stands for. -/
def escapes : List (Char × Char) :=
  [('0', '\x00'), ('a', '\x07'), ('b', '\x08'), ('t', '\t'), ('\t', '\t'), ('n', '\n'),
   ('v', '\x0b'), ('f', '\x0c'), ('r', '\r'), ('e', '\x1b'), (' ', ' '), ('"', '"'),
   ('\\', '\\'), ('/', '/'), ('N', '\u0085'), ('_', '\u00A0'), ('L', '\u2028'), ('P', '\u2029')]

/-- The number of digits after an escape that gives a code. -/
def codeWidth? (c : Char) : Option Nat := [('x', 2), ('u', 4), ('U', 8)].lookup c

/-- The line ends and the white space around them inside quotes. -/
def quotedBreaks : Nat → Cursor → Except Fault (List Char × Cursor)
  | 0, c => .ok ([], c)
  | fuel + 1, c => do
    if c.isSeparator then throw .openQuote
    let c := c.skip fun d => d == ' ' || d == '\t'
    if isBreak c.peek then
      let (b, c) := c.lineBreak
      let (bs, c) ← quotedBreaks fuel c
      return (b :: bs, c)
    return ([], c)

/-- Reads the escape that follows a backslash. The code of a surrogate, which stands for no
character of a text, is left out: what it gives here is the null character. -/
def quotedEscape (c : Cursor) : Except Fault (List Char × Cursor) := do
  let d := c.peek
  if isBreak d then quotedBreaks c.rest.length c.lineBreak.2
  else match escapes.lookup d, codeWidth? d with
    | some e, _ => return ([e], c.next)
    | none, some width =>
      let c := c.next
      match hexNumber? (c.rest.take width) with
      | some code =>
        if c.rest.length < width then throw .badEscape
        if 0x110000 ≤ code then throw .badCode
        return ([Char.ofNat code], c.advance width)
      | none => throw .badEscape
    | none, none => throw .badEscape

/-- The white space inside quotes, line ends folded. -/
def quotedSpaces (c : Cursor) : Except Fault (List Char × Cursor) := do
  let (spaces, c) := c.span fun d => d == ' ' || d == '\t'
  if c.peek == theEnd then throw .openQuote
  if isBreak c.peek then
    let (b, c) := c.lineBreak
    let (bs, c) ← quotedBreaks c.rest.length c
    return (folded b bs, c)
  return (spaces, c)

/-- Reads what follows an opening quote, up to the closing one. -/
def quotedFrom (quote : Char) : Nat → Cursor → Except Fault (List Char × Cursor)
  | 0, _ => .error .openQuote
  | fuel + 1, c => do
    let d := c.peek
    if d == quote then
      if quote == '\'' && c.peekAt 1 == '\'' then
        let (cs, c) ← quotedFrom quote fuel (c.advance 2)
        return ('\'' :: cs, c)
      return ([], c.next)
    let (part, c) ←
      if isGap d then quotedSpaces c
      else if quote == '"' && d == '\\' then quotedEscape c.next
      else pure ([d], c.next)
    let (cs, c) ← quotedFrom quote fuel c
    return (part ++ cs, c)

/-! ## Block scalars -/

/-- What becomes of the line ends at the end of a block. -/
inductive Chomping where
  /-- The last one is kept. -/
  | clip
  /-- All are dropped. -/
  | strip
  /-- All are kept. -/
  | keep
deriving Repr, DecidableEq

/-- The sign that chooses what becomes of the last line ends. -/
def chompingSign? (c : Char) : Option Chomping :=
  if c == '+' then some .keep else if c == '-' then some .strip else none

/-- Reads the digit of an indentation, if there is one. -/
def indentDigit (c : Cursor) : Except Fault (Option Nat × Cursor) :=
  if c.peek == '0' then .error .badScalarHeader
  else if c.peek.isDigit then .ok (some (c.peek.toNat - 48), c.next)
  else .ok (none, c)

/-- Reads the signs after the mark of a block, in either order. -/
def blockSigns (c : Cursor) : Except Fault (Chomping × Option Nat × Cursor) := do
  let (chomping, indent, c) ← match chompingSign? c.peek with
    | some chomping =>
      let (indent, c) ← indentDigit c.next
      pure (chomping, indent, c)
    | none =>
      let (indent, c) ← indentDigit c
      match indent, chompingSign? c.peek with
      | some n, some chomping => pure (chomping, some n, c.next)
      | _, _ => pure (.clip, indent, c)
  if !isSpaceOrEnd c.peek then throw .badScalarHeader
  return (chomping, indent, c)

/-- Steps over the rest of a line that may hold a comment only. -/
def restOfLine (fault : Fault) (c : Cursor) : Except Fault Cursor :=
  let c := (c.skip (· == ' ')).comment
  if isLineEnd c.peek then .ok (if isBreak c.peek then c.next else c) else .error fault

/-- The empty lines at the beginning of a block, and the greatest number of spaces in front of
something. -/
def leadingBreaks : Nat → Nat → Cursor → List Char × Nat × Cursor
  | 0, widest, c => ([], widest, c)
  | fuel + 1, widest, c =>
    if c.peek == ' ' then
      let c := c.next
      leadingBreaks fuel (max widest c.column) c
    else if isBreak c.peek then
      let (b, c) := c.lineBreak
      let (bs, widest, c) := leadingBreaks fuel widest c
      (b :: bs, widest, c)
    else ([], widest, c)

/-- Steps over spaces as long as the indentation is not reached. -/
def toIndent (indent : Nat) : Nat → Cursor → Cursor
  | 0, c => c
  | fuel + 1, c =>
    if c.column < indent && c.peek == ' ' then toIndent indent fuel c.next else c

/-- The empty lines inside a block. -/
def blockBreaks (indent : Nat) : Nat → Cursor → List Char × Cursor
  | 0, c => ([], c)
  | fuel + 1, c =>
    let c := toIndent indent indent c
    if isBreak c.peek then
      let (b, c) := c.lineBreak
      let (bs, c) := blockBreaks indent fuel c
      (b :: bs, c)
    else ([], c)

/-- Reads the lines of a block; `breaks` are the line ends before the first of them. The result ends
without the last line end, which comes apart, and the line ends after it. -/
def blockLines (isFolded : Bool) (indent : Nat) :
    Nat → List Char → Cursor → List Char × List Char × List Char × Cursor
  | 0, breaks, c => ([], [], breaks, c)
  | fuel + 1, breaks, c =>
    let begun := !(c.peek == ' ' || c.peek == '\t')
    let (line, c) := c.span (!isLineEnd ·)
    let (last, c) := if isBreak c.peek then
        let (b, c) := c.lineBreak
        ([b], c)
      else ([], c)
    let (after, c) := blockBreaks indent c.rest.length c
    if c.column == indent && c.peek != theEnd then
      let joint :=
        if isFolded && last == ['\n'] && begun && !(c.peek == ' ' || c.peek == '\t') then
          if after.isEmpty then [' '] else []
        else last
      let (more, last, after, c) := blockLines isFolded indent fuel after c
      (breaks ++ line ++ joint ++ more, last, after, c)
    else (breaks ++ line, last, after, c)

/-- Reads a block after its mark; `outer` is the indentation around it. -/
def blockScalar (isFolded : Bool) (outer : Int) (c : Cursor) :
    Except Fault (List Char × Cursor) := do
  let (chomping, given, c) ← blockSigns c
  let c ← restOfLine .badScalarHeader c
  let least := max (outer + 1).toNat 1
  let (indent, breaks, c) := match given with
    | none =>
      let (breaks, widest, c) := leadingBreaks c.rest.length 0 c
      (max least widest, breaks, c)
    | some n =>
      let indent := least + n - 1
      let (breaks, c) := blockBreaks indent c.rest.length c
      (indent, breaks, c)
  let (text, last, after, c) :=
    if c.column == indent && c.peek != theEnd then blockLines isFolded indent c.rest.length breaks c
    else ([], [], breaks, c)
  return (match chomping with
    | .strip => text
    | .clip => text ++ last
    | .keep => text ++ last ++ after, c)

end ScriptScrub.Yaml
