import ScriptScrub.Script.Input

/-!
# Line ends that end statements

Where a semicolon may be left out. `Input.statementEnd?` looks at what follows a token and tells
where the statement ends: at the token or after a comment that follows it. Whether an operand has
just ended matters, since an operator on the next line then continues the statement. The typed
dialects differ in small ways.
-/

namespace ScriptScrub.Script.Input
variable (input : Input)

/-- What a run of white space and comments looks like. -/
inductive Gap where
  /-- A slash that begins no comment. -/
  | slash
  /-- A block comment on one line, with something after it. -/
  | sameLine
  | passed
deriving DecidableEq

/-- A character that breaks a line. -/
def breaksLine (c : Char) : Bool := c == '\n' || isLineSeparator c

/-- The end of the block comment whose text begins at `i`, or the end of the script, and whether a
line breaks inside. -/
def blockExtent : Nat → Bool → Nat → Bool × Nat
  | 0, broken, i => (broken, i)
  | n + 1, broken, i =>
    if input.size ≤ i then (broken, i)
    else if input.char i == '*' && input.char (i + 1) == '/' then (broken, i + 2)
    else blockExtent n (broken || breaksLine (input.char i)) (i + 1)

/-- Passes over white space and comments. Unless `all` is set, it stops after a block comment that
no slash follows. -/
def gap (all : Bool) : Nat → Bool → Nat → Gap × Nat
  | 0, _, i => (.passed, i)
  | n + 1, broken, i =>
    let i := input.skip isBreakingSpace i
    if input.char i != '/' then (.passed, i)
    else if input.char (i + 1) == '/' then
      gap all n broken (input.skip (fun c => !breaksLine c) (i + 2))
    else if input.char (i + 1) == '*' then
      let (more, j) := input.blockExtent (input.size - i) false (i + 2)
      let broken := broken || more
      if input.char j != '/' && !all then (if broken then .passed else .sameLine, j)
      else gap all n broken j
    else (.slash, i)

/-- What the next line begins with does not continue the statement, so far as it can be told from
the characters that both kinds of dialect treat alike. -/
def beginsAnew (i : Nat) : Bool :=
  match input.char i with
  | '+' => input.char (i + 1) == '+'
  | '-' => input.char (i + 1) == '-'
  | '!' => input.char (i + 1) != '='
  | 'i' =>
    if input.char (i + 1) != 'n' then true
    else if !isLetter (input.char (i + 2)) then false
    else if !input.startsAt (i + 2) "stanceof".toList then true
    else isLetter (input.char (i + 10))
  | _ => true

/-- The statement ends before a line that begins at `i`. -/
def endsBeforeLine (afterOperand : Bool) (i : Nat) : Bool :=
  let c := input.char i
  if input.hasTypes then
    if "`,.;*%><=?^|&/:".toList.contains c then false
    else if (c == '(' || c == '[') && afterOperand then false
    else input.beginsAnew i
  else if "`,:;*%><=[(?^|&/".toList.contains c then false
  else if c == '.' then (input.char (i + 1)).isDigit
  else input.beginsAnew i

/-- The statement ends before the line break at `i`, whatever comments come after it. -/
def endsAtBreak (afterOperand : Bool) (i : Nat) : Bool :=
  match input.gap true (input.size + 1 - i) false (i + 1) with
  | (.slash, _) => false
  | (_, j) => input.endsBeforeLine afterOperand j

/-- The untyped rule: the statement ends at `i`, comments after it being looked through. -/
def endsPlainly (afterOperand : Bool) : Nat → Nat → Bool
  | 0, _ => false
  | n + 1, i =>
    if input.char i == '\x00' then true
    else
      let (seen, j) := if input.char i == '/' then
          let (g, j) := input.gap false (input.size + 1 - i) false i
          (some g, j)
        else (none, i)
      let c := input.char j
      if seen = some .slash then false
      else if seen = some .passed && !afterOperand && c != ',' && c != '=' then true
      else if c == '\x7d' then true
      else if breaksLine c then input.endsAtBreak afterOperand j
      else if isBreakingSpace c then endsPlainly afterOperand n (j + 1)
      else false

/-- The typed rule: the statement ends at `i`; a closing brace before a colon belongs to a pattern
with a type. -/
def endsTyped (afterOperand : Bool) : Nat → Nat → Bool
  | 0, _ => false
  | n + 1, i =>
    let c := input.char i
    if c == '\x00' then true
    else if c == '\x7d' then
      input.char (input.skip isBreakingSpace (i + 1)) != ':' || afterOperand
    else if c == '\n' then input.endsAtBreak afterOperand i
    else if isBreakingSpace c then endsTyped afterOperand n (i + 1)
    else false

/-- The statement ends at `i`. -/
def endsAt (afterOperand : Bool) (i : Nat) : Bool :=
  if input.hasTypes then input.endsTyped afterOperand (input.size + 2 - i) i
  else input.endsPlainly afterOperand (input.size + 2 - i) i

/-- The first position at or after `i` at which the statement ends, comments between being the only
thing that may be passed. -/
def statementEndFrom? (afterOperand : Bool) : Nat → Nat → Option Nat
  | 0, _ => none
  | n + 1, i =>
    if input.endsAt afterOperand i then some i
    else (input.commentEnd? (input.skip isSpace i)).bind (statementEndFrom? afterOperand n)

/-- Where a statement ends whose last token ends at `i`, if no semicolon is needed. -/
def statementEnd? (afterOperand : Bool) (i : Nat) : Option Nat :=
  input.statementEndFrom? afterOperand (input.size + 1 - i) i

end ScriptScrub.Script.Input
