import ScriptScrub.Script.Declaration

/-!
# Statements

What a script, a block and the body of a function consist of.
-/

namespace ScriptScrub.Script

open Phrase

section
variable (self : Rules)

/-- Any number of statements, and what closes them. A markup comment may stand before it. -/
def statementsThen (close : Phrase) : Phrase :=
  let afterComments : Phrase := fun input i => close input (input.skipTriviaAndMarkup i)
  seq [many (self .statement), choice [close, afterComments]]

/-- What `Goal.block` means. -/
def blockStatement (isOperand : Bool) : Phrase :=
  node "statement_block"
    [mark '\x7b', statementsThen self (mark '\x7d'), maybe (lineEnd isOperand)]

/-- A condition in round brackets. -/
def condition : Phrase := parenthesized self

/-- An expression as a statement. -/
def expressionStatement : Phrase :=
  node "expression_statement" [self (.expressions { lineEnds := true }), semicolon true]

/-- A statement that does nothing. -/
def emptyStatement : Phrase := node "empty_statement" [sign ";"]

/-! ### Choices -/

/-- A statement that is run on a condition. -/
def ifStatement : Phrase :=
  node "if_statement" [word "if", condition self, self .statement,
    maybe (node "else_clause" [word "else", self .statement])]

/-- A choice between cases. -/
def switchStatement : Phrase :=
  let run := seq [maybe (field "body" (self .statement)), many (self .statement)]
  let one := choice [
    node "switch_case" [word "case", field "value" (self (.expressions {})), sign ":", run],
    node "switch_default" [word "default", sign ":", run]]
  node "switch_statement" [word "switch", field "value" (condition self),
    field "body" (node "switch_body" [braces (many one)])]

/-! ### Loops -/

/-- The head of a loop over members: what each of them is put into. -/
def loopTarget : Phrase :=
  let c : Context := { noIn := true }
  let converted : Phrase := Reader.bind (self (.target c)) fun ns =>
    match ns.mapM fun n =>
      if n.kind == "parenthesized_expression" then some n else asTarget? n with
    | some ns => Reader.pure (filling "left" ns)
    | none => Reader.fail
  let follows := ahead (wordOf ["in", "of"])
  choice [
    seq [field "kind" (word "var"), field "left" (self .pattern), optionalType self,
      maybe (initializer self c), follows],
    seq [field "kind" (wordOf ["let", "const"]), field "left" (self .pattern), optionalType self,
      follows],
    seq [field "kind" (choice [word "using", seq [word "await", word "using"]]),
      field "left" identifier, follows],
    seq [converted, follows]]

/-- A loop over members. -/
def forInStatement : Phrase :=
  node "for_in_statement" [word "for", maybe (word "await"), mark '(', loopTarget self,
    wordOf ["in", "of"], self (.expressions {}), mark ')', field "body" (self .statement)]

/-- A loop with a start, a condition and a step. -/
def forStatement : Phrase :=
  let c : Context := { noIn := true, lineEnds := true }
  node "for_statement" [word "for", mark '(',
    choice [
      field "initializer" emptyStatement,
      field "initializer" (variableList self c),
      seq [field "initializer" (self (.expressions { noIn := true })), sign ";"]],
    choice [emptyStatement, seq [self (.expressions {}), sign ";"]],
    maybe (self (.expressions {})), mark ')', field "body" (self .statement)]

/-- A loop with its condition in front. -/
def whileStatement : Phrase :=
  node "while_statement" [word "while", condition self, field "body" (self .statement)]

/-- A loop with its condition at the end. -/
def doStatement : Phrase :=
  node "do_statement" [word "do", field "body" (self .statement), word "while", condition self,
    maybe (semicolon false)]

/-! ### Jumps -/

/-- A jump to a label or out of the nearest loop. -/
def jump (kind w : String) : Phrase :=
  node kind [word w, choice [lineEnd false,
    seq [maybe (renamed "statement_identifier" identifier), semicolon false]]]

/-- The end of a function's run. -/
def returnStatement : Phrase :=
  node "return_statement" [word "return", choice [lineEnd false, sign ";",
    seq [self (.expressions { lineEnds := true }), semicolon true]]]

/-- A failure. -/
def throwStatement : Phrase :=
  node "throw_statement" [word "throw", self (.expressions { lineEnds := true }), semicolon true]

/-- Statements whose failures are handled. -/
def tryStatement : Phrase :=
  let parameter := parens (seq [field "parameter" (self .pattern), optionalType self])
  node "try_statement" [word "try", field "body" (self (.block false)),
    maybe (node "catch_clause" [word "catch", maybe parameter, field "body" (self (.block false))]),
    maybe (node "finally_clause" [word "finally", field "body" (self (.block false))])]

/-- A statement with a label. -/
def labelledStatement : Phrase :=
  node "labeled_statement" [renamed "statement_identifier" identifier, sign ":",
    field "body" (self .statement)]

/-! ### All statements -/

/-- A block, or an expression that begins with an object. A block that begins with a label counts
as an object where it can be one. -/
def braceStatement : Phrase := fun input i =>
  let asBlock := self (.block false)
  let asValue := expressionStatement self
  match asBlock input i with
  | some (ns, j) =>
    let labelled := ns.any fun n =>
      ((n.children.filter (·.named)).head?).any (·.kind == "labeled_statement")
    if labelled then
      match asValue input i with
      | some result => some result
      | none => some (ns, j)
    else some (ns, j)
  | none => asValue input i

/-- A statement that begins with a word that the language gives a meaning, if it is one. -/
def wordStatement (w : String) : Option Phrase :=
  match w with
  | "var" | "const" | "using" => some (choice [variableList self { lineEnds := true },
      typed (typeDeclaration self)])
  | "let" => some (variableList self { lineEnds := true })
  | "function" => some (functionDeclaration self)
  | "async" => some (functionDeclaration self)
  | "class" => some (classDeclaration self)
  | "import" => some (choice [typed importAlias, importStatement self])
  | "export" => some (exportStatement self)
  | "if" => some (ifStatement self)
  | "switch" => some (switchStatement self)
  | "for" => some (choice [forInStatement self, forStatement self])
  | "while" => some (whileStatement self)
  | "do" => some (doStatement self)
  | "try" => some (tryStatement self)
  | "with" => some (node "with_statement" [word "with", condition self,
      field "body" (self .statement)])
  | "break" => some (jump "break_statement" "break")
  | "continue" => some (jump "continue_statement" "continue")
  | "return" => some (returnStatement self)
  | "throw" => some (throwStatement self)
  | "debugger" => some (node "debugger_statement" [word "debugger", semicolon false])
  | "await" => some (variableList self { lineEnds := true })
  | "type" | "interface" | "enum" | "module" => some (typed (typeDeclaration self))
  | "namespace" => some (typed (node "expression_statement" [internalModule self,
      semicolon true]))
  | "abstract" => some (typed (classDeclaration self))
  | "declare" => some (typed (ambientDeclaration self))
  | _ => none

/-- A statement that begins with a sign other than a brace. -/
def signStatement (c : Char) : Phrase :=
  if c == ';' then emptyStatement
  else if c == '@' then
    choice [exportStatement self, classDeclaration self, expressionStatement self]
  else expressionStatement self

/-- Words that are no names at the start of a statement in the typed dialects. -/
def openingWords : List String := ["abstract", "interface", "enum"]

/-- What `Goal.statement` means. -/
def anyStatement : Phrase := fun input i =>
  -- a line end may end what a closing brace ends, and then no markup comment is looked for
  let start := if 0 < i && input.char (i - 1) == '\x7d' then input.skipTrivia i
    else input.skipTriviaAndMarkup i
  let c := input.char start
  let found : Phrase :=
    if c == '\x7b' then braceStatement self
    else if (input.wordEnd? start).isNone then signStatement self c
    else
      let rest := choice [labelledStatement self, expressionStatement self]
      let w := input.wordAt start
      match wordStatement self w with
      | some p =>
        if input.hasTypes && openingWords.contains w then p else choice [p, rest]
      | none => rest
  found input start

end

end ScriptScrub.Script
