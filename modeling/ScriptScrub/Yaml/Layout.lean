import ScriptScrub.Yaml.Scalar
import ScriptScrub.Yaml.Token
import ScriptScrub.Text.Utf8

/-!
# Layout

Turns a text into tokens. Outside brackets the indentation tells where blocks begin and end; a key
that is not marked is known only when its colon comes, so the places at which one might have begun
are remembered until then.
-/

namespace ScriptScrub.Yaml

/-- A place at which a key may have begun. -/
structure OpenKey where
  /-- The number of brackets around it. -/
  depth : Nat
  /-- The number of tokens before it. -/
  position : Nat
  /-- Nothing but a key can stand here. -/
  required : Bool
  index : Nat
  line : Nat
  column : Nat
deriving Repr, Inhabited

/-- The tokens read so far, and what is needed to read on. -/
structure Layout where
  cursor : Cursor
  tokens : List Token := []
  /-- The number of open brackets. -/
  depth : Nat := 0
  indent : Int := -1
  /-- The indentations around the present one, the nearest first. -/
  outer : List Int := []
  /-- A key may begin here. -/
  mayKey : Bool := true
  openKeys : List OpenKey := []
deriving Inhabited

namespace Layout

/-- Adds a token. -/
def add (l : Layout) (t : Token) : Layout := { l with tokens := l.tokens ++ [t] }

/-- Moves on. -/
def move (l : Layout) (c : Cursor) : Layout := { l with cursor := c }

/-- The longest key, in characters. -/
def keyLimit : Nat := 1024

/-- Forgets the places whose key cannot come any more. -/
def forget (l : Layout) : Except Fault Layout :=
  let (stale, fresh) := l.openKeys.partition fun k =>
    k.line != l.cursor.line || keyLimit < l.cursor.index - k.index
  if stale.any (·.required) then .error .missingColon else .ok { l with openKeys := fresh }

/-- Gives up the place of the present depth. -/
def giveUp (l : Layout) : Except Fault Layout :=
  let (here, others) := l.openKeys.partition (·.depth == l.depth)
  if here.any (·.required) then .error .missingColon else .ok { l with openKeys := others }

/-- Remembers that a key may begin here. -/
def offer (l : Layout) : Except Fault Layout :=
  if l.mayKey then do
    let l ← l.giveUp
    let c := l.cursor
    return { l with openKeys := {
      depth := l.depth, position := l.tokens.length,
      required := l.depth == 0 && l.indent == (c.column : Int),
      index := c.index, line := c.line, column := c.column } :: l.openKeys }
  else .ok l

/-- Ends the blocks that are indented by more than `column`; `outer` lists the indentations. -/
def unwindTo (column : Int) : List Int → Layout → Layout
  | [], l => l
  | o :: outer, l =>
    if l.indent > column then
      unwindTo column outer { l.add .blockEnd with indent := o, outer := outer }
    else l

/-- Ends the blocks that are indented by more than `column`, unless brackets are open. -/
def unwind (l : Layout) (column : Int) : Layout :=
  if l.depth == 0 then unwindTo column l.outer l else l

/-- Begins a block at a column if it is indented by more than what is around it. -/
def indentTo (l : Layout) (column : Int) : Bool × Layout :=
  if l.indent < column then (true, { l with indent := column, outer := l.indent :: l.outer })
  else (false, l)

/-- Steps over spaces, comments and line ends. -/
def toToken : Nat → Layout → Layout
  | 0, l => l
  | fuel + 1, l =>
    let c := (l.cursor.skip (· == ' ')).comment
    if isBreak c.peek then
      toToken fuel { l with cursor := c.next, mayKey := l.mayKey || l.depth == 0 }
    else l.move c

/-! ### Directives, names and tags -/

/-- Reads a name after the character in front of it. -/
def name (c : Cursor) : Except Fault (String × Cursor) :=
  match c.next.span isNameChar with
  | ([], _) => .error .badName
  | (cs, c) =>
    if isGap c.peek || "?:,]\x7d%@\x60".toList.contains c.peek then .ok (String.ofList cs, c)
    else .error .badName

/-- Reads the bytes that percent signs and digits write. -/
def percentBytes : Nat → Cursor → Except Fault (Bytes × Cursor)
  | 0, c => .ok ([], c)
  | fuel + 1, c =>
    if c.peek == '%' then
      match hexNumber? [c.peekAt 1, c.peekAt 2] with
      | none => .error .badTag
      | some n => do
        let (bs, c) ← percentBytes fuel (c.advance 3)
        return (UInt8.ofNat n :: bs, c)
    else .ok ([], c)

/-- Reads the characters of a tag. -/
def tagText : Nat → Cursor → Except Fault (List Char × Cursor)
  | 0, c => .ok ([], c)
  | fuel + 1, c =>
    if c.peek == '%' then do
      let (bytes, c) ← percentBytes c.rest.length c
      match Text.decodeChars? bytes with
      | none => throw .badTag
      | some cs =>
        let (more, c) ← tagText fuel c
        return (cs ++ more, c)
    else if isTagChar c.peek then do
      let (more, rest) ← tagText fuel c.next
      return (c.peek :: more, rest)
    else .ok ([], c)

/-- Reads the characters of a tag, at least one. -/
def someTagText (c : Cursor) : Except Fault (String × Cursor) := do
  if !isTagChar c.peek then throw .badTag
  let (cs, c) ← tagText c.rest.length c
  return (String.ofList cs, c)

/-- Reads a handle: a name between two exclamation marks, or a single mark before a space. -/
def tagHandle (c : Cursor) : Except Fault (String × Cursor) :=
  if c.peek != '!' then .error .badTag
  else if c.peekAt 1 == ' ' then .ok ("!", c.next)
  else
    let (cs, d) := c.next.span isNameChar
    if d.peek == '!' then .ok (String.ofList ('!' :: cs ++ ['!']), d.next) else .error .badTag

/-- Reads a tag. -/
def tag (c : Cursor) : Except Fault (Token × Cursor) := do
  let d := c.peekAt 1
  let (t, c) ←
    if d == '<' then do
      let (text, c) ← someTagText (c.advance 2)
      if c.peek != '>' then throw .badTag
      pure (Token.tag none text, c.next)
    else if isGap d then pure (Token.tag none "!", c.next)
    else do
      let word := c.next.rest.takeWhile fun e => !isSpaceOrEnd e
      let (handle, c) ← if word.contains '!' then tagHandle c else pure ("!", c.next)
      let (text, c) ← someTagText c
      pure (Token.tag (some handle) text, c)
  if !isSpaceOrEnd c.peek then throw .badTag
  return (t, c)

/-- Reads digits. -/
def digits (c : Cursor) : Except Fault (Nat × Cursor) :=
  match c.span Char.isDigit with
  | ([], _) => .error .badDirective
  | (ds, c) => .ok (ds.foldl (fun n d => n * 10 + (d.toNat - 48)) 0, c)

/-- Reads a directive and the rest of its line. -/
def directive (c : Cursor) : Except Fault (Token × Cursor) := do
  let (word, c) := c.next.span isNameChar
  if word.isEmpty || !isSpaceOrEnd c.peek then throw .badDirective
  let (t, c) ←
    if word == "YAML".toList then do
      let (major, c) ← digits (c.skip (· == ' '))
      if c.peek != '.' then throw .badDirective
      let (_, c) ← digits c.next
      if !isSpaceOrEnd c.peek then throw .badDirective
      pure (Token.version major, c)
    else if word == "TAG".toList then do
      let (handle, c) ← tagHandle (c.skip (· == ' '))
      if c.peek != ' ' then throw .badDirective
      let (start, c) ← someTagText (c.skip (· == ' '))
      if !isSpaceOrEnd c.peek then throw .badDirective
      pure (Token.tagName handle start, c)
    else pure (Token.otherDirective, c.skip (!isLineEnd ·))
  return (t, ← restOfLine .badDirective c)

/-! ### Tokens -/

/-- Ends all blocks; no key can be open any more. -/
def close (l : Layout) : Except Fault Layout := do
  let l ← (l.unwind (-1)).giveUp
  return { l with mayKey := false }

/-- Reads an opening bracket. -/
def openBracket (l : Layout) (t : Token) : Except Fault Layout := do
  let l ← l.offer
  return ({ l with depth := l.depth + 1, mayKey := true, cursor := l.cursor.next }).add t

/-- Reads a closing bracket. -/
def closeBracket (l : Layout) (t : Token) : Except Fault Layout := do
  let l ← l.giveUp
  return ({ l with depth := l.depth - 1, mayKey := false, cursor := l.cursor.next }).add t

/-- Reads the dash before an item. -/
def readItem (l : Layout) : Except Fault Layout := do
  if l.depth == 0 && !l.mayKey then throw .misplacedItem
  let (begins, l) := if l.depth == 0 then l.indentTo l.cursor.column else (false, l)
  let l ← ({ if begins then l.add .itemsStart else l with mayKey := true }).giveUp
  return (l.move l.cursor.next).add .item

/-- Reads the question mark before a key. -/
def readKey (l : Layout) : Except Fault Layout := do
  if l.depth == 0 && !l.mayKey then throw .misplacedKey
  let (begins, l) := if l.depth == 0 then l.indentTo l.cursor.column else (false, l)
  let l ← ({ if begins then l.add .keysStart else l with mayKey := l.depth == 0 }).giveUp
  return (l.move l.cursor.next).add .key

/-- Reads the colon before a value: what stands where a key may have begun is a key now. -/
def readValue (l : Layout) : Except Fault Layout := do
  match l.openKeys.find? (·.depth == l.depth) with
  | some k =>
    let l := { l with
      openKeys := l.openKeys.filter (·.depth != l.depth)
      tokens := l.tokens.insertIdx k.position .key, mayKey := false }
    let (begins, l) := if l.depth == 0 then l.indentTo k.column else (false, l)
    let l := if begins then { l with tokens := l.tokens.insertIdx k.position .keysStart } else l
    return (l.move l.cursor.next).add .value
  | none =>
    if l.depth == 0 && !l.mayKey then throw .misplacedValue
    let (begins, l) := if l.depth == 0 then l.indentTo l.cursor.column else (false, l)
    let l ← ({ if begins then l.add .keysStart else l with mayKey := l.depth == 0 }).giveUp
    return (l.move l.cursor.next).add .value

/-- Reads something that may be a key, after which no other key can begin. -/
def readProperty (l : Layout) (read : Cursor → Except Fault (Token × Cursor)) :
    Except Fault Layout := do
  let l ← l.offer
  let (t, c) ← read l.cursor
  return ({ l with mayKey := false, cursor := c }).add t

/-- Reads a plain scalar; a key may follow if it ended at the beginning of a line. -/
def readPlain (l : Layout) : Except Fault Layout := do
  let l ← l.offer
  let (cs, broke, c) :=
    plainFrom (l.depth != 0) (l.indent + 1) l.cursor.rest.length [] false l.cursor
  return ({ l with mayKey := broke, cursor := c }).add (.scalar (String.ofList cs) true)

/-- Reads a block scalar. -/
def readBlock (l : Layout) (isFolded : Bool) : Except Fault Layout := do
  let l ← ({ l with mayKey := true }).giveUp
  let (cs, c) ← blockScalar isFolded l.indent l.cursor.next
  return (l.move c).add (.scalar (String.ofList cs) false)

/-- Reads a text between quotes. -/
def quotedToken (c : Cursor) : Except Fault (Token × Cursor) := do
  let (cs, rest) ← quotedFrom c.peek (c.rest.length + 1) c.next
  return (.scalar (String.ofList cs) false, rest)

/-- Can a plain scalar begin here? -/
def beginsPlain (l : Layout) : Bool :=
  let d := l.cursor.peek
  !(isGap d || "-?:,[]\x7b\x7d#&*!|>'\"%@\x60".toList.contains d) ||
    (!isGap (l.cursor.peekAt 1) && (d == '-' || (l.depth == 0 && (d == '?' || d == ':'))))

/-- Reads the next token, of which something is left to read. -/
def readToken (l : Layout) : Except Fault Layout :=
  let c := l.cursor
  let d := c.peek
  let gap := isGap (c.peekAt 1)
  if d == '%' && c.column == 0 then do
    let l ← l.close
    let (t, c) ← directive c
    return (l.move c).add t
  else if c.column == 0 && c.isSeparator then do
    let l ← l.close
    return (l.move (c.advance 3)).add (if d == '-' then .documentStart else .documentEnd)
  else if d == '[' then l.openBracket .flowItemsStart
  else if d == '{' then l.openBracket .flowKeysStart
  else if d == ']' then l.closeBracket .flowItemsEnd
  else if d == '}' then l.closeBracket .flowKeysEnd
  else if d == ',' then do
    let l ← ({ l with mayKey := true }).giveUp
    return (l.move c.next).add .comma
  else if d == '-' && gap then l.readItem
  else if d == '?' && (l.depth != 0 || gap) then l.readKey
  else if d == ':' && (l.depth != 0 || gap) then l.readValue
  else if d == '*' then l.readProperty fun c => do
    let (n, c) ← name c
    return (.alias n, c)
  else if d == '&' then l.readProperty fun c => do
    let (n, c) ← name c
    return (.anchor n, c)
  else if d == '!' then l.readProperty tag
  else if d == '|' && l.depth == 0 then l.readBlock false
  else if d == '>' && l.depth == 0 then l.readBlock true
  else if d == '\'' || d == '"' then l.readProperty quotedToken
  else if l.beginsPlain then l.readPlain
  else .error (.stray d)

/-- Reads all tokens. Every step reads a character, so there are no more steps than those. -/
def readAll : Nat → Layout → Except Fault (List Token)
  | 0, _ => .error .badStructure
  | fuel + 1, l => do
    let l ← (toToken l.cursor.rest.length l).forget
    let l := l.unwind l.cursor.column
    if l.cursor.rest.isEmpty then return (← l.close).tokens
    readAll fuel (← readToken l)

end Layout

/-- The tokens of a text. -/
def tokens (text : List Char) : Except Fault (List Token) :=
  match text.find? fun c => !isAllowed c with
  | some c => .error (.unprintable c)
  | none =>
    let start : Cursor := { rest := text }
    Layout.readAll (text.length + 1)
      { cursor := if start.peek == byteOrderMark then start.next else start }

end ScriptScrub.Yaml
