import ScriptScrub.Script.Token

/-!
# Goals

The rules of the grammar refer to each other in circles. What a rule may need of another is a
`Goal`; every rule takes the meaning `self` of all goals as a parameter, and the circle is closed
in one place.
-/

namespace ScriptScrub.Script

/-- What surrounds an expression, so far as it decides how far the expression reaches. -/
structure Context where
  /-- The word `in` belongs to the head of a loop. -/
  noIn : Bool := false
  /-- A line end may end the statement that the expression belongs to. -/
  lineEnds : Bool := false
  /-- A colon after round brackets belongs to a conditional expression. -/
  noReturnType : Bool := false
  /-- What follows an operand and concerns its type belongs to the whole of the operands joined so
  far. -/
  noTypeSuffix : Bool := false
deriving Repr, DecidableEq, Inhabited

/-- A part of a script that a rule may ask for. -/
inductive Goal where
  | statement
  /-- Statements in braces; the flag tells whether they are the body of a function that is an
  operand. -/
  | block (isOperand : Bool)
  /-- Expressions between commas. -/
  | expressions (c : Context)
  | expression (c : Context)
  /-- Operands joined by operators that bind at least as tight as a level. -/
  | joined (c : Context) (level : Nat)
  /-- An operand with the operators in front of it. -/
  | operand (c : Context)
  /-- An operand with member accesses and calls. -/
  | target (c : Context)
  /-- A pattern that declares names. -/
  | pattern
  | markup
  | type
  /-- A type that no operator joins. -/
  | primaryType
  | objectType
  | typeArguments
  | typeParameters
deriving Repr, DecidableEq, Inhabited

/-- What every goal means. -/
abbrev Rules := Goal → Phrase

namespace Phrase

/-- A phrase of the typed dialects only. -/
def typed (p : Phrase) : Phrase := fun input i => if input.hasTypes then p input i else none

/-- A phrase of the untyped dialect only. -/
def untyped (p : Phrase) : Phrase := fun input i => if input.hasTypes then none else p input i

/-- A phrase of the dialects with markup only. -/
def markedUp (p : Phrase) : Phrase := fun input i => if input.hasMarkup then p input i else none

end Phrase

open Phrase

section
variable (self : Rules)

/-- A type after a colon. -/
def ascription : Phrase := node "type_annotation" [sign ":", self .type]

/-- A type after a colon, where the dialect has types and the script gives one. -/
def optionalType : Phrase := maybe (typed (ascription self))

/-- The parameters of a type, where the dialect has types and the script gives some. -/
def optionalTypeParameters : Phrase := maybe (typed (self .typeParameters))

/-- What a function tells about its value: a type, a claim about a parameter, or an assertion. -/
def returnType : Phrase :=
  let claim := node "type_predicate"
    [choice [node "this" [word "this"], identifier], word "is", self .type]
  let assertion := node "asserts"
    [word "asserts", choice [claim, node "this" [word "this"], identifier]]
  choice [
    node "asserts_annotation" [sign ":", assertion],
    node "type_predicate_annotation" [sign ":", claim],
    ascription self]

/-- An initial value. -/
def initializer (c : Context) : Phrase := seq [sign "=", field "value" (self (.expression c))]

/-- The name of a property in square brackets. -/
def computedName : Phrase := node "computed_property_name" [brackets (self (.expression {}))]

/-- The name of a property. -/
def propertyName : Phrase :=
  choice [propertyWord, privateName, text, number, computedName self]

/-- Plain text and substitutions between backquotes. -/
def template : Phrase :=
  let plain := immediate "string_fragment" true fun input i =>
    let j := input.templateTextEnd (input.size - i) i
    if i < j then some j else none
  let substitution := node "template_substitution" [
    immediate "$\x7b" false fun input i =>
      if input.char i == '$' && input.char (i + 1) == '\x7b' then some (i + 2) else none,
    self (.expressions {}), mark '\x7d']
  node "template_string" [mark '\x60', many (choice [plain, escape, substitution]),
    immediate "\x60" false fun input i => if input.char i == '\x60' then some (i + 1) else none]

/-- The sign of an access that may find nothing. -/
def optionalChain : Phrase := fun input i =>
  if input.hasTypes then (node "optional_chain" [sign "?."]) input i
  else (renamed "optional_chain" (sign "?.")) input i

/-- The arguments of a call. -/
def arguments : Phrase :=
  node "arguments" [parens (sparse (choice [
    node "spread_element" [sign "...", self (.expression {})], self (.expression {})]))]

end

end ScriptScrub.Script
