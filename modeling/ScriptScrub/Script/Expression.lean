import ScriptScrub.Script.Class
import ScriptScrub.Script.Markup

/-!
# Expressions

Operands, what may follow and precede them, and the operators that join them. An assignment or an
arrow function may stand wherever an operand may, and reaches as far as it can.
-/

namespace ScriptScrub.Script

open Phrase

/-- The operators that join two operands, with the level at which they bind. -/
def operatorLevels : List (String × Nat) :=
  [("??", 0), ("||", 1), ("&&", 2), ("|", 3), ("^", 4), ("&", 5),
   ("==", 6), ("!=", 6), ("===", 6), ("!==", 6), ("<", 7), (">", 7), ("<=", 7), (">=", 7),
   ("<<", 8), (">>", 8), (">>>", 8), ("+", 9), ("-", 9), ("*", 10), ("/", 10), ("%", 10),
   ("**", 11)]

/-- The words that join two operands bind like comparisons. -/
def wordLevel : Nat := 7

/-- Assignments that also compute. -/
def computingAssignments : List String :=
  ["+=", "-=", "*=", "/=", "%=", "^=", "&=", "|=", ">>=", ">>>=", "<<=", "**=", "&&=", "||=",
   "??="]

/-- What a plain assignment may assign to besides patterns. -/
def assignable : List String := "parenthesized_expression" :: plainTargets

/-- Adds a field to nodes. -/
def filling (name : String) (ns : List Node) : List Node :=
  ns.map fun n => { n with field := some name }

section
variable (self : Rules) (c : Context)

/-- Nothing, unless the statement may end at a line end and does so here. -/
def goesOn (afterOperand : Bool) : Phrase :=
  if c.lineEnds then notAhead (lineEnd afterOperand) else Reader.pure []

/-- The context of a part between brackets. -/
def inner : Context := {}

/-! ### Operands -/

/-- A block, or an object where the block would begin with a label. -/
def arrowBody : Phrase := fun input i =>
  let asBlock := self (.block true)
  let asValue := self (.expression c)
  match asBlock input i with
  | some (ns, j) =>
    let labelled := ns.any fun n =>
      ((n.children.filter (·.named)).head?).any (·.kind == "labeled_statement")
    if labelled then
      match asValue input i with
      | some result => some result
      | none => some (ns, j)
    else some (ns, j)
  | none => asValue input i

/-- The parameters of an arrow function: one name, or a list. -/
def arrowParameters : Phrase :=
  let result := if c.noReturnType then Reader.pure [] else maybe (typed (returnType self))
  choice [
    seq [field "parameter" identifier, ahead (sign "=>")],
    seq [optionalTypeParameters self, parameters self, result, ahead (sign "=>")]]

/-- An arrow function. -/
def arrowFunction : Phrase :=
  let head := choice [
    seq [word "async", goesOn c true, arrowParameters self c],
    arrowParameters self c]
  node "arrow_function" [head, sign "=>", field "body" (arrowBody self c)]

/-- A function that is an operand. -/
def functionExpression : Phrase :=
  let front := before (seq [word "async", goesOn c true]) (word "function")
  choice [
    node "generator_function"
      [front, sign "*", functionRest self (maybe (field "name" identifier)) true],
    node "function_expression"
      [front, functionRest self (maybe (field "name" identifier)) true]]

/-- A class that is an operand. -/
def classExpression : Phrase :=
  node "class" [many (decorator self), classRest self (maybe (field "name" className))]

/-- What a call of `new` makes an object of: no calls are part of it. -/
def constructorChain (primary : Phrase) : Phrase :=
  Reader.bind primary fun first => Reader.grow first fun object =>
    choice [
      nodeAfter "member_expression" (filling "object" object)
        [choice [sign ".", optionalChain], field "property" (choice [privateName, propertyWord])],
      nodeAfter "subscript_expression" (filling "object" object)
        [mark '[', field "index" (self (.expressions {})), mark ']'],
      typed (nodeAfter "non_null_expression" object [sign "!"])]

/-- An object of a class that is called for. -/
def newExpression (primary : Phrase) : Phrase :=
  choice [
    node "meta_property" [word "new", sign ".", word "target"],
    node "new_expression" [word "new", constructorChain self primary,
      maybe (typed (seq [self .typeArguments, notAhead identifier])), maybe (arguments self)]]

/-- The word `import` as an operand. -/
def importOperand : Phrase :=
  choice [
    node "meta_property" [word "import", sign ".", word "meta"],
    seq [node "import" [word "import"], ahead (choice [mark '(', mark '.'])]]

/-- An expression in round brackets, with a type where there are types. -/
def parenthesized : Phrase :=
  node "parenthesized_expression" [parens (seq [self (.expressions {}), optionalType self])]

/-- A list of items. -/
def arrayLiteral : Phrase :=
  node "array" [brackets (sparse (choice [
    node "spread_element" [sign "...", self (.expression {})], self (.expression {})]))]

/-- A member of an object. A default value makes sense only if the object turns out to be a
pattern. -/
def objectMember : Phrase :=
  choice [
    node "spread_element" [sign "...", self (.expression {})],
    method self false,
    node "pair" [propertyName self, sign ":", field "value" (self (.expression {}))],
    node "object_assignment_pattern"
      [field "left" (renamed "shorthand_property_identifier_pattern" identifier), sign "=",
        self (.expression {})],
    renamed "shorthand_property_identifier" identifier]

/-- An object with its members. -/
def objectLiteral : Phrase := node "object" [braces (sparse (objectMember self))]

/-- Words that are operands by themselves. -/
def operandWords : List String := ["this", "super", "true", "false", "null", "undefined"]

/-- A name as an operand. -/
def nameOperand : Phrase :=
  choice [
    seq [notAhead (wordOf ["await", "yield"]), identifier]]

/-- An operand by itself, found by its first character. -/
def primary : Nat → Phrase
  | 0 => Reader.fail
  | n + 1 => fun input i =>
    let start := input.skipTriviaAndMarkup i
    let ch := input.char start
    let w := input.wordAt start
    let asName := choice [arrowFunction self c, nameOperand]
    let found : Phrase :=
      if ch == '(' then choice [arrowFunction self c, parenthesized self]
      else if ch == '[' then arrayLiteral self
      else if ch == '\x7b' then objectLiteral self
      else if ch == '"' || ch == '\'' then text
      else if ch == '\x60' then template self
      else if ch == '/' then regex
      else if ch.isDigit || ch == '.' then number
      else if ch == '<' then choice [typed (arrowFunction self c), markedUp (self .markup)]
      else if ch == '@' then classExpression self
      else if ch == '#' then seq [privateName, ahead (word "in")]
      else if w == "function" then functionExpression self c
      else if w == "class" then classExpression self
      else if w == "new" then newExpression self (primary n)
      else if w == "import" then importOperand
      else if operandWords.contains w then
        choice [if w == "undefined" then arrowFunction self c else Reader.fail, namedWord w]
      else if w == "async" then choice [functionExpression self c, asName]
      else asName
    found input start

/-! ### What follows an operand -/

/-- The type arguments of a call, followed by what shows that they are some. -/
def callTypeArguments : Phrase :=
  typed (seq [self .typeArguments, ahead (choice [mark '(', mark '\x60'])])

/-- Type arguments without a call: nothing that an operand may begin with follows. -/
def bareTypeArguments : Phrase :=
  typed (seq [self .typeArguments, notAhead (choice [identifier, number, text, mark '(', mark '[',
    mark '\x7b', mark '\x60', mark '<', sign "!", sign "~", sign "+", sign "-", mark '/', mark '@',
    wordOf ["this", "new", "function", "class", "typeof", "void", "delete", "null", "true",
      "false", "super"]])])

/-- A phrase of the typed dialects that belongs to all operands joined so far. -/
def typedSuffix (p : Phrase) : Phrase := if c.noTypeSuffix then Reader.fail else typed p

/-- One access or call after an operand. -/
def suffix (n : List Node) : Phrase := fun input i =>
  let object := filling "object" n
  let function := filling "function" n
  let name := field "property" (choice [privateName, propertyWord])
  let found : Phrase := match input.nextSign i with
    | "." => nodeAfter "member_expression" object [sign ".", name]
    | "?." =>
      choice [
        nodeAfter "call_expression" function
          [choice [typed (sign "?."), optionalChain], maybe (typed (self .typeArguments)),
            arguments self],
        nodeAfter "subscript_expression" object
          [optionalChain, mark '[', field "index" (self (.expressions {})), mark ']'],
        nodeAfter "member_expression" object [optionalChain, name]]
    | "[" =>
      nodeAfter "subscript_expression" object
        [mark '[', field "index" (self (.expressions {})), mark ']']
    | "(" => nodeAfter "call_expression" function [arguments self]
    | "!" => typedSuffix c (nodeAfter "non_null_expression" n [goesOn c true, sign "!"])
    | "<" | "<<" =>
      choice [
        nodeAfter "call_expression" function
          [callTypeArguments self, choice [arguments self, template self]],
        nodeAfter "instantiation_expression" n [bareTypeArguments self]]
    | _ =>
      if input.char (input.skipTrivia i) == '\x60' then
        nodeAfter "call_expression" function [template self]
      else Reader.fail
  found input i

/-- What `Goal.target` means: an operand with the accesses and calls after it. -/
def targetExpression : Phrase :=
  Reader.bind (primary self c 64) fun first => Reader.grow first (suffix self c)

/-- An operand, with the sign after it that counts it up or down, or as the left side of an
assignment. -/
def assignedOrCounted : Phrase :=
  Reader.bind (self (.target c)) fun n => fun input i =>
    let s := input.nextSign i
    let kinds := n.map (·.kind)
    let kept : Option (List Node × Nat) := some (n, i)
    if s == "++" || s == "--" then
      match (nodeAfter "update_expression" n [goesOn c true, sign s]) input i with
      | some result => some result
      | none => kept
    else if s == "=" then
      let left : Option (List Node) :=
        if kinds.all assignable.contains then some n
        else if kinds.all ["object", "array"].contains then n.mapM asTarget?
        else none
      match left with
      | none => kept
      | some left => (nodeAfter "assignment_expression" (filling "left" left)
          [sign "=", self (.expression { c with noTypeSuffix := false })]) input i
    else if computingAssignments.contains s && kinds.all assignable.contains then
      (nodeAfter "augmented_assignment_expression" (filling "left" n)
        [sign s, self (.expression { c with noTypeSuffix := false })]) input i
    else kept

/-! ### What precedes an operand -/

/-- The value that a generator hands out, or nothing. -/
def yieldExpression : Phrase :=
  node "yield_expression" [word "yield", choice [
    seq [sign "*", self (.expression c)],
    maybe (seq [goesOn c true, self (.expression c)])]]

/-- What `Goal.operand` means: an operand with the operators in front of it. -/
def prefixedOperand : Phrase := fun input i =>
  let start := input.skipTriviaAndMarkup i
  let w := input.wordAt start
  let found : Phrase := match input.signAt? start with
    | some "!" | some "~" | some "-" | some "+" =>
      node "unary_expression"
        [signOf ["!", "~", "-", "+"], self (.operand { c with noTypeSuffix := true })]
    | some "++" | some "--" =>
      node "update_expression" [signOf ["++", "--"], self (.operand c)]
    | some "<" =>
      choice [assignedOrCounted self c,
        if input.hasMarkup then Reader.fail
        else node "type_assertion" [self .typeArguments, self (.operand c)]]
    | _ =>
      if w == "typeof" || w == "void" || w == "delete" then
        node "unary_expression" [word w, self (.operand { c with noTypeSuffix := true })]
      else if w == "await" then node "await_expression" [word "await", self (.operand c)]
      else if w == "yield" then yieldExpression self c
      else assignedOrCounted self c
  found input start

/-! ### Operators between operands -/

/-- An operator and the operand after it, added to the operand before it. Accesses and calls follow
joined operands only where a sign about their type came between. -/
def joinedOnce (level : Nat) (n : List Node) : Phrase := fun input i =>
  let w := input.nextWord i
  let binary (op : Phrase) (c : Context) (right : Nat) : Phrase :=
    nodeAfter "binary_expression" (filling "left" n) [op, self (.joined c right)]
  let found : Phrase :=
    if w == "instanceof" || (w == "in" && !c.noIn) then
      if level ≤ wordLevel then binary (word w) { c with noTypeSuffix := true } (wordLevel + 1)
      else Reader.fail
    else if w == "as" then
      typedSuffix c (nodeAfter "as_expression" n [goesOn c true, word "as", self .type])
    else if w == "satisfies" then
      typedSuffix c (nodeAfter "satisfies_expression" n
        [goesOn c true, word "satisfies", self .type])
    else
      let s := input.nextSign i
      match operatorLevels.lookup s with
      | none =>
        if s == "!" then
          typedSuffix c (Reader.bind (nodeAfter "non_null_expression" n [goesOn c true, sign "!"])
            fun m => Reader.grow m (suffix self c))
        else Reader.fail
      | some l =>
        if l < level then Reader.fail
        else if s == "**" then binary (sign s) c l
        else binary (sign s) { c with noTypeSuffix := true } (l + 1)
  found input i

/-- What `Goal.joined` means. -/
def joinedOperands (level : Nat) : Phrase :=
  Reader.bind (self (.operand c)) fun first => Reader.grow first (joinedOnce self c level)

/-- What `Goal.expression` means: operands and operators, or a choice between two expressions. -/
def conditional : Phrase :=
  Reader.bind (self (.joined c 0)) fun condition => fun input i =>
    if input.nextSign i == "?" then
      let middle (noReturnType : Bool) : Phrase :=
        seq [self (.expression { noReturnType := noReturnType }), sign ":"]
      (nodeAfter "ternary_expression" condition
        [sign "?", choice [middle false, typed (middle true)], self (.expression c)]) input i
    else some (condition, i)

/-- What `Goal.expressions` means: expressions between commas. -/
def sequence : Phrase :=
  Reader.bind (self (.expression c)) fun first => fun input i =>
    if input.nextSign i == "," then
      match (nodeAfter "sequence_expression" first
        [sign ",", separated (sign ",") (self (.expression c))]) input i with
      | some result => some result
      | none => some (first, i)
    else some (first, i)

end

end ScriptScrub.Script
