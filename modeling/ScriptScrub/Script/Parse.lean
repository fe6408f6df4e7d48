import ScriptScrub.Script.Comment
import ScriptScrub.Script.Statement
import ScriptScrub.Syntax.Grammar

/-!
# Parsing a script

The circle of goals is closed here: a goal may ask for others as often as the script is long,
which no rule can exhaust without moving on. A script that is no script gives one error node.
-/

namespace ScriptScrub.Script

open Phrase

/-- What a goal means in terms of the meaning of all goals. -/
def rules (self : Rules) : Rules
  | .statement => anyStatement self
  | .block isOperand => blockStatement self isOperand
  | .expressions c => sequence self c
  | .expression c => conditional self c
  | .joined c level => joinedOperands self c level
  | .operand c => prefixedOperand self c
  | .target c => targetExpression self c
  | .pattern => pattern self
  | .markup => element self
  | .type => anyType self
  | .primaryType => primaryType self
  | .objectType => objectType self
  | .typeArguments => typeArgumentList self
  | .typeParameters => typeParameterList self

/-- What a goal means when goals may ask for others at most `n` deep. -/
def rulesUpTo : Nat → Rules
  | 0 => fun _ => Reader.fail
  | n + 1 => rules (rulesUpTo n)

/-- The line that may open a script to tell what runs it. -/
def interpreterLine : Phrase :=
  token "hash_bang_line" true fun input i =>
    if input.startsAt i ['#', '!'] then some (input.skip (· != '\n') i) else none

/-- The statements at the start of a script. -/
def program.statements : Phrase := fun input i =>
  let self := rulesUpTo (16 * (input.size + 2))
  (seq [maybe interpreterLine, many (self .statement)]) input i

/-- The whole script. -/
def program : Phrase := fun input i =>
  match program.statements input i with
  | some (ns, j) =>
    if input.size ≤ input.skipTriviaAndMarkup j then some (ns, input.size) else none
  | none => none

mutual

/-- A default value stands in an object that is no pattern. -/
def hasStrayDefault : Node → Bool
  | ⟨kind, _, _, _, _, _, _, children⟩ =>
    (kind == "object" && children.any (·.kind == "object_assignment_pattern")) ||
      anyStrayDefault children

/-- A default value stands in an object that is no pattern, somewhere in some trees. -/
def anyStrayDefault : List Node → Bool
  | [] => false
  | n :: ns => hasStrayDefault n || anyStrayDefault ns

end

mutual

/-- Moves a tree from positions of characters to positions of bytes. -/
def toOffsets (offset : Nat → Nat) : Node → Node
  | ⟨kind, start, stop, named, missing, broken, field, children⟩ =>
    ⟨kind, offset start, offset stop, named, missing, broken, field,
      toOffsetsAll offset children⟩

/-- Moves trees from positions of characters to positions of bytes. -/
def toOffsetsAll (offset : Nat → Nat) : List Node → List Node
  | [] => []
  | n :: ns => toOffsets offset n :: toOffsetsAll offset ns

end

/-- The offset of every character and of the end, counted from `at_`. -/
def offsetsFrom (at_ : Nat) : List Char → List Nat
  | [] => [at_]
  | c :: cs => at_ :: offsetsFrom (at_ + Text.width c.toNat) cs

/-- The tree of a script. A byte order mark at its start is skipped. -/
def tree? (input : Input) : Option Node :=
  match program input 0 with
  | none => none
  | some (ns, stop) =>
    let root : Node :=
      { kind := "program", start := 0, stop := stop, children := ns }
    if hasStrayDefault root then none
    else
      let full := withComments input root
      let start := (full.children.head?.map (·.start)).getD stop
      some { full with start := start }

/-! ### Broken scripts -/

/-- The end of the token that begins at a position, as far as it can be told without a rule of the
grammar. -/
def roughTokenEnd (input : Input) (i : Nat) : Nat :=
  match (input.wordEnd? i).or (input.numberEnd? i) with
  | some j => j
  | none => match input.signAt? i with
    | some s => i + s.length
    | none => i + 1

/-- The rough tokens of a script from a position on. -/
def roughTokens (input : Input) : Nat → Nat → List (Nat × Nat)
  | 0, _ => []
  | n + 1, i =>
    let start := input.skipTrivia i
    if input.size ≤ start then []
    else
      let stop := roughTokenEnd input start
      (start, stop) :: roughTokens input n stop

/-- The script with blanks in the place of a token. -/
def without (input : Input) (token : Nat × Nat) : Input :=
  { input with chars := input.chars.mapIdx fun i c =>
      if token.1 ≤ i && i < token.2 then ' ' else c }

/-- The start of the first statement that cannot be read. -/
def unreadableStart (input : Input) : Nat :=
  match program.statements input 0 with
  | some (_, i) => input.skipTrivia i
  | none => input.skipTrivia 0

/-- How many tokens are looked at to find the one that breaks a script. -/
def suspects : Nat := 64

/-- The range that makes a script unreadable: a single token before the last one, without which
the script could be read, or all from the first statement on that cannot be read. -/
def faultRange (input : Input) : Nat × Nat :=
  let start := unreadableStart input
  let tokens := ((roughTokens input input.size start).dropLast).take suspects
  match tokens.find? fun t => (tree? (without input t)).isSome with
  | some t => t
  | none => (start, input.size)

/-- The tree of a script that the grammar cannot read: it tells where the script breaks. -/
def brokenTree (input : Input) : Node :=
  let (start, stop) := faultRange input
  let fault : Node := { kind := Node.errorKind, start := start, stop := stop }
  { kind := "program", start := 0, stop := input.size, children := [fault] }

/-- The grammar of scripts. -/
def grammar : Grammar := fun dialect source =>
  let chars := (Text.decodeForgiving source).toList
  let input : Input := { chars := chars.toArray, dialect := dialect }
  let offsets := (offsetsFrom 0 chars).toArray
  let root := (tree? input).getD (brokenTree input)
  .ok (toOffsets (fun i => offsets.getD i source.length) root)

end ScriptScrub.Script
