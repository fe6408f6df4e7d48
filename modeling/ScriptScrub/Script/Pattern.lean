import ScriptScrub.Script.Goal

/-!
# Patterns

Patterns declare names or take values apart. Where a pattern stands alone it is read as one; where
it could as well be an array or an object, it is read as that first, and `asTarget?` turns it into
a pattern once an assignment or the head of a loop shows what it is.
-/

namespace ScriptScrub.Script

open Phrase

/-- Operands that a value can be assigned to as they are. -/
def plainTargets : List String :=
  ["identifier", "undefined", "member_expression", "subscript_expression", "non_null_expression"]

mutual

/-- The pattern that an operand stands for on the left of an assignment. -/
def asTarget? : Node → Option Node
  | n@⟨kind, start, stop, named, missing, broken, field, children⟩ =>
    if kind ∈ plainTargets then some n
    else match kind with
      | "object" =>
        (asMembers? children).map fun cs =>
          ⟨"object_pattern", start, stop, named, missing, broken, field, cs⟩
      | "array" =>
        (asItems? children).map fun cs =>
          ⟨"array_pattern", start, stop, named, missing, broken, field, cs⟩
      | "assignment_expression" =>
        some ⟨"assignment_pattern", start, stop, named, missing, broken, field, children⟩
      | "spread_element" =>
        (asItems? children).map fun cs =>
          ⟨"rest_pattern", start, stop, named, missing, broken, field, cs⟩
      | "object_pattern" | "array_pattern" => some n
      | _ => none

/-- The patterns that the items of an array stand for. -/
def asItems? : List Node → Option (List Node)
  | [] => some []
  | n :: ns =>
    match if n.named then asTarget? n else some n with
    | some m => (asItems? ns).map (m :: ·)
    | none => none

/-- The pattern that a member of an object stands for. -/
def asMember? : Node → Option Node
  | n@⟨kind, start, stop, named, missing, broken, field, children⟩ =>
    match kind with
    | "pair" =>
      (asPair? children).map fun cs =>
        ⟨"pair_pattern", start, stop, named, missing, broken, field, cs⟩
    | "shorthand_property_identifier" =>
      some ⟨"shorthand_property_identifier_pattern", start, stop, named, missing, broken, field,
        children⟩
    | "spread_element" =>
      (asItems? children).map fun cs =>
        ⟨"rest_pattern", start, stop, named, missing, broken, field, cs⟩
    | "object_assignment_pattern" => some n
    | _ => none

/-- The patterns that the members of an object stand for. -/
def asMembers? : List Node → Option (List Node)
  | [] => some []
  | n :: ns =>
    match if n.named then asMember? n else some n with
    | some m => (asMembers? ns).map (m :: ·)
    | none => none

/-- The parts of a pair, the value turned into a pattern. -/
def asPair? : List Node → Option (List Node)
  | [] => some []
  | n :: ns =>
    match if n.field == some "value" then asTarget? n else some n with
    | some m => (asPair? ns).map (m :: ·)
    | none => none

end

section
variable (self : Rules)

/-- A name or a pattern, as the left side of a declaration. -/
def declared : Phrase := self .pattern

/-- A pattern with the value that stands in for a missing one. -/
def withDefault (p : Phrase) : Phrase := fun input i =>
  match p input i with
  | some (left, j) =>
    if input.nextSign j == "=" then
      (nodeAfter "assignment_pattern" (left.map fun n => { n with field := some "left" })
        [sign "=", self (.expression {})]) input j
    else some (left, j)
  | none => none

/-- The rest of a list or of an object. -/
def restPattern : Phrase := node "rest_pattern" [sign "...", self .pattern]

/-- A member of an object pattern. -/
def memberPattern : Phrase :=
  let short := renamed "shorthand_property_identifier_pattern" identifier
  choice [
    restPattern self,
    node "pair_pattern"
      [propertyName self, sign ":", field "value" (withDefault self (self .pattern))],
    node "object_assignment_pattern" [field "left" short, sign "=", self (.expression {})],
    short]

/-- A pattern that takes an object or a list apart. -/
def destructuring : Phrase :=
  choice [
    node "object_pattern" [braces (sparse (memberPattern self))],
    node "array_pattern"
      [brackets (sparse (choice [restPattern self, withDefault self (self .pattern)]))]]

/-- What `Goal.pattern` means. -/
def pattern : Phrase := choice [destructuring self, identifier]

/-- The words that may stand before a parameter with a type. -/
def parameterModifiers : Phrase :=
  let modifier (kind : String) (ws : List String) (rest : Phrase) : Phrase :=
    before (node kind [wordOf ws]) rest
  modifier "accessibility_modifier" ["public", "private", "protected"]
    (modifier "override_modifier" ["override"]
      (before (word "readonly") (ahead (choice [sign "...", mark '\x7b', mark '[',
        propertyWord]))))

/-- The name that a decorator calls or uses. -/
def decoratorName : Phrase :=
  Reader.bind identifier fun first => Reader.grow first fun object =>
    nodeAfter "member_expression" (object.map fun n => { n with field := some "object" })
      [sign ".", field "property" propertyWord]

/-- A decorator. -/
def decorator : Phrase :=
  let called := Reader.bind decoratorName fun callee =>
    nodeAfter "call_expression" (callee.map fun n => { n with field := some "function" })
      [maybe (typed (self .typeArguments)), arguments self]
  node "decorator" [sign "@", choice [called, decoratorName,
    node "parenthesized_expression" [parens (self (.expressions {}))]]]

/-- A parameter with a type. -/
def typedParameter : Phrase :=
  let subject := seq [many (decorator self), parameterModifiers,
    field "pattern" (choice [restPattern self, self .pattern, namedWord "this"])]
  let ending := seq [optionalType self, maybe (initializer self {})]
  choice [
    node "optional_parameter" [subject, sign "?", ending],
    node "required_parameter" [subject, ending]]

/-- The parameters of a function. -/
def parameters : Phrase :=
  let one := choice [typed (typedParameter self),
    untyped (choice [restPattern self, withDefault self (self .pattern)])]
  field "parameters" (node "formal_parameters" [parens (maybe (listed one))])

/-- The parameters of a function, and what the dialects with types add to them. -/
def signature : Phrase :=
  seq [optionalTypeParameters self, parameters self, maybe (typed (returnType self))]

end

end ScriptScrub.Script
