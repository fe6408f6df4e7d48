import ScriptScrub.Yaml.Fault
import ScriptScrub.Yaml.PlainTag
import ScriptScrub.Yaml.Token

/-!
# Documents as trees

The tokens of a text make up one document: a tree of scalars, lists and tables, each with its tag. A
name may be given to a part of the tree, and used later in place of a copy of it.
-/

namespace ScriptScrub.Yaml

/-- A part of a document. -/
inductive Node where
  | scalar (tag : Tag) (text : String)
  | items (tag : Tag) (nodes : List Node)
  | keys (tag : Tag) (entries : List (Node × Node))
  /-- A part that is named inside itself. -/
  | cycle
deriving Inhabited

/-- What is known while a document is read: the tokens to come, the short names of tags and the
named parts, of which those still being read have no node. -/
structure Reading where
  tokens : List Token
  handles : List (String × String) := []
  anchors : List (String × Option Node) := []
deriving Inhabited

/-- Reads a part of a document. -/
abbrev Read (α : Type) := StateT Reading (Except Fault) α

namespace Read

/-- The next token. -/
def peek : Read (Option Token) := return (← get).tokens.head?

/-- Leaves the next token behind. -/
def drop : Read Unit := modify fun r => { r with tokens := r.tokens.tail }

/-- Leaves the next token behind if it is the given one. -/
def accept (t : Token) : Read Bool := do
  if (← peek) == some t then
    drop
    return true
  return false

/-- The node that nothing at all stands for. -/
def nothing : Node := .scalar .null ""

/-- Remembers a named part. -/
def remember (anchor : Option String) (n : Option Node) : Read Unit :=
  match anchor with
  | none => return ()
  | some name => modify fun r => { r with anchors := (name, n) :: r.anchors }

/-- The full name of a tag. -/
def fullTag (handle : Option String) (text : String) : Read String := do
  match handle with
  | none => return text
  | some h =>
    match (← get).handles.lookup h with
    | some start => return start ++ text
    | none => throw .badTag

/-- The tag of a token. -/
def readTag : Read (Option String) := do
  match ← peek with
  | some (.tag handle text) =>
    drop
    return some (← fullTag handle text)
  | _ => return none

/-- The name that a token gives. -/
def readAnchor : Read (Option String) := do
  match ← peek with
  | some (.anchor name) =>
    drop
    return some name
  | _ => return none

/-- The name and the tag in front of a part, in either order. -/
def properties : Read (Option String × Option String) := do
  match ← readAnchor with
  | some name => return (some name, ← readTag)
  | none =>
    let tag ← readTag
    return (← readAnchor, tag)

/-- The tag of a collection. -/
def collectionTag (usual : Tag) : Option String → Tag
  | none | some "!" => usual
  | some name => Tag.ofName name

/-- The tag of a scalar: a plain one without a tag tells by its text what it is. -/
def scalarTag (text : String) (plain : Bool) : Option String → Tag
  | none => if plain then plainTag text else .text
  | some "!" => plainTag text
  | some name => Tag.ofName name

/-- The named part, which may still be incomplete. -/
def named (name : String) : Read Node := do
  match (← get).anchors.lookup name with
  | some (some n) => return n
  | some none => return .cycle
  | none => throw (.unknownAlias name)

/-- Reads what a name and a tag stand before as a collection. -/
def collection (anchor : Option String) (content : Read Node) : Read Node := do
  remember anchor none
  let n ← content
  remember anchor (some n)
  return n

mutual

/-- Reads one part. A block may begin here only if `block` is set; the items of a list may stand
without indentation if `bare` is. -/
def node (block bare : Bool) : Nat → Read Node
  | 0 => throw .badStructure
  | fuel + 1 => do
    if let some (.alias name) ← peek then
      drop
      return ← named name
    let (anchor, tag) ← properties
    if let some name := anchor then
      if ((← get).anchors.lookup name).isSome then throw (.repeatedAnchor name)
    match ← peek with
    | some (.scalar text plain) =>
      drop
      let n := Node.scalar (scalarTag text plain tag) text
      remember anchor (some n)
      return n
    | some .flowItemsStart =>
      drop
      collection anchor (return .items (collectionTag .list tag) (← flowItems true fuel))
    | some .flowKeysStart =>
      drop
      collection anchor (return .keys (collectionTag .table tag) (← flowEntries true fuel))
    | some .item =>
      if bare then
        collection anchor (return .items (collectionTag .list tag) (← bareItems fuel))
      else empty anchor tag
    | some .itemsStart =>
      if block then
        drop
        collection anchor (return .items (collectionTag .list tag) (← blockItems fuel))
      else empty anchor tag
    | some .keysStart =>
      if block then
        drop
        collection anchor (return .keys (collectionTag .table tag) (← blockEntries fuel))
      else empty anchor tag
    | _ => empty anchor tag
where
  /-- A part of which only the name or the tag is there. -/
  empty (anchor tag : Option String) : Read Node := do
    if anchor.isNone && tag.isNone then throw .badStructure
    let n := Node.scalar (scalarTag "" true tag) ""
    remember anchor (some n)
    return n

/-- Reads a part unless one of these tokens comes, in which case nothing stands for it. -/
def nodeUnless (ends : List Token) (block bare : Bool) : Nat → Read Node
  | 0 => throw .badStructure
  | fuel + 1 => do
    match ← peek with
    | some t => if ends.contains t then return nothing else node block bare fuel
    | none => node block bare fuel

/-- Reads the items of an indented list. -/
def blockItems : Nat → Read (List Node)
  | 0 => throw .badStructure
  | fuel + 1 => do
    if ← accept .item then
      let n ← nodeUnless [.item, .blockEnd] true false fuel
      return n :: (← blockItems fuel)
    if ← accept .blockEnd then return []
    throw .badStructure

/-- Reads the items of a list that is not indented. -/
def bareItems : Nat → Read (List Node)
  | 0 => throw .badStructure
  | fuel + 1 => do
    if ← accept .item then
      let n ← nodeUnless [.item, .key, .value, .blockEnd] true false fuel
      return n :: (← bareItems fuel)
    return []

/-- Reads the entries of an indented table. -/
def blockEntries : Nat → Read (List (Node × Node))
  | 0 => throw .badStructure
  | fuel + 1 => do
    if ← accept .blockEnd then return []
    let ends := [Token.key, .value, .blockEnd]
    if !(← accept .key) then throw .badStructure
    let k ← nodeUnless ends true true fuel
    let v ← if ← accept .value then nodeUnless ends true true fuel else pure nothing
    return (k, v) :: (← blockEntries fuel)

/-- Reads the items of a list in brackets; a single entry counts as a table. -/
def flowItems (first : Bool) : Nat → Read (List Node)
  | 0 => throw .badStructure
  | fuel + 1 => do
    if ← accept .flowItemsEnd then return []
    if !first then
      if !(← accept .comma) then throw .badStructure
    if ← accept .flowItemsEnd then return []
    if ← accept .key then
      let k ← nodeUnless [.value, .comma, .flowItemsEnd] false false fuel
      let v ← if ← accept .value then nodeUnless [.comma, .flowItemsEnd] false false fuel
        else pure nothing
      return .keys .table [(k, v)] :: (← flowItems false fuel)
    let n ← node false false fuel
    return n :: (← flowItems false fuel)

/-- Reads the entries of a table in brackets. -/
def flowEntries (first : Bool) : Nat → Read (List (Node × Node))
  | 0 => throw .badStructure
  | fuel + 1 => do
    if ← accept .flowKeysEnd then return []
    if !first then
      if !(← accept .comma) then throw .badStructure
    if ← accept .flowKeysEnd then return []
    if ← accept .key then
      let k ← nodeUnless [.value, .comma, .flowKeysEnd] false false fuel
      let v ← if ← accept .value then nodeUnless [.comma, .flowKeysEnd] false false fuel
        else pure nothing
      return (k, v) :: (← flowEntries false fuel)
    let k ← node false false fuel
    return (k, nothing) :: (← flowEntries false fuel)

end

/-- Reads the directives in front of a document. -/
def directives : Nat → Bool → List (String × String) → Read (List (String × String))
  | 0, _, handles => return handles
  | fuel + 1, versioned, handles => do
    match ← peek with
    | some (.version major) =>
      if versioned || major != 1 then throw .badDirective
      drop
      directives fuel true handles
    | some (.tagName handle start) =>
      if (handles.lookup handle).isSome then throw .badDirective
      drop
      directives fuel versioned ((handle, start) :: handles)
    | some .otherDirective =>
      drop
      directives fuel versioned handles
    | _ => return handles

/-- The short names that every document knows. -/
def usualHandles : List (String × String) := [("!", "!"), ("!!", Tag.common)]

/-- Leaves all marks of an end behind. -/
def dropEnds : Nat → Read Unit
  | 0 => return ()
  | fuel + 1 => do if ← accept .documentEnd then dropEnds fuel

/-- Reads a document that begins with a mark. -/
def markedDocument (fuel : Nat) : Read Node := do
  let handles ← directives fuel false []
  modify fun r => { r with handles := handles ++ usualHandles }
  if !(← accept .documentStart) then throw .badStructure
  match ← peek with
  | none | some .documentStart | some .documentEnd | some .otherDirective
  | some (.version _) | some (.tagName _ _) => return nothing
  | _ => node true false fuel

/-- Reads the only document of a text, if there is one. -/
def document (fuel : Nat) : Read (Option Node) := do
  let begun := match ← peek with
    | none | some .documentStart | some .otherDirective | some (.version _)
    | some (.tagName _ _) => false
    | _ => true
  let n ← if begun then
      modify fun r => { r with handles := usualHandles }
      pure (some (← node true false fuel))
    else
      dropEnds fuel
      if (← peek).isNone then pure none else pure (some (← markedDocument fuel))
  discard (accept .documentEnd)
  dropEnds fuel
  if (← peek).isSome then
    if !((← get).tokens.contains .documentStart) then throw .badStructure
    throw .manyDocuments
  return n

end Read

/-- The document that the tokens make up, if there are any. -/
def Node.ofTokens? (tokens : List Token) : Except Fault (Option Node) := do
  let (n, _) ← (Read.document (4 * tokens.length + 4)).run { tokens }
  return n

end ScriptScrub.Yaml
