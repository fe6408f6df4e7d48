import ScriptScrub.Script.Pattern

/-!
# Functions and classes

The parts of functions and of classes that are the same in expressions and in declarations.
-/

namespace ScriptScrub.Script

open Phrase

section
variable (self : Rules)

/-- The body of a function. -/
def body (isOperand : Bool) : Phrase := field "body" (self (.block isOperand))

/-- A word that changes the meaning of the name after it. A line end between the two would make the
word a name of its own. -/
def modifier (inClass : Bool) (w : String) : Phrase :=
  if inClass then seq [word w, notAhead (lineEnd false)] else word w

/-- The words and the name at the head of a method, up to its parameters. -/
def methodHead (inClass : Bool) : Phrase :=
  let name := seq [field "name" (propertyName self), maybe (typed (sign "?")),
    ahead (choice [mark '(', typed (mark '<')])]
  let kinded := before (modifier inClass "async")
    (before (choice [modifier inClass "get", modifier inClass "set", sign "*"]) name)
  if inClass then
    choice [
      typed (before (node "accessibility_modifier" [wordOf ["public", "private", "protected"]])
        (before (modifier inClass "static")
          (before (node "override_modifier" [word "override"])
            (before (modifier inClass "readonly") kinded)))),
      untyped (before (modifier inClass "static") kinded)]
  else kinded

/-- A method. -/
def method (inClass : Bool) : Phrase :=
  node "method_definition"
    [if inClass then untyped (many (decorator self)) <|> Reader.pure [] else Reader.pure [],
      methodHead self inClass, signature self, body self false]

/-- A method without a body. -/
def methodSignature (kind : String) (front : Phrase) : Phrase :=
  node kind [front,
    before (node "accessibility_modifier" [wordOf ["public", "private", "protected"]])
      (before (modifier true "static") (before (node "override_modifier" [word "override"])
        (before (modifier true "readonly") (before (modifier true "async")
          (before (choice [modifier true "get", modifier true "set", sign "*"])
            (seq [field "name" (propertyName self), maybe (sign "?"),
              ahead (choice [mark '(', mark '<'])])))))),
    signature self]

/-- A field of a class. -/
def fieldDefinition : Phrase :=
  node "field_definition" [many (decorator self),
    before (modifier true "static") (seq [field "property" (propertyName self),
      notAhead (mark '(')]),
    maybe (initializer self { lineEnds := true })]

/-- A field of a class in a dialect with types. -/
def typedFieldDefinition : Phrase :=
  let access := node "accessibility_modifier" [wordOf ["public", "private", "protected"]]
  let name := seq [field "name" (propertyName self), notAhead (choice [mark '(', mark '<'])]
  let words := before (modifier true "static")
    (before (node "override_modifier" [word "override"])
      (before (modifier true "abstract") (before (modifier true "readonly")
        (before (modifier true "abstract") (before (modifier true "accessor") name)))))
  node "public_field_definition" [many (decorator self),
    before (modifier true "declare") (before access (before (modifier true "declare") words)),
    maybe (choice [sign "?", sign "!"]), optionalType self,
    maybe (initializer self { lineEnds := true })]

/-- A rule for all properties of an object, or the clause that makes one for each member of a
type. -/
def indexSignature : Phrase :=
  let clause := node "mapped_type_clause"
    [field "name" (renamed "type_identifier" propertyWord), word "in", self .type,
      maybe (seq [word "as", field "alias" (self .type)])]
  let annotation := choice [
    node "omitting_type_annotation" [sign "-", mark '?', sign ":", self .type],
    node "adding_type_annotation" [sign "+", mark '?', sign ":", self .type],
    node "opting_type_annotation" [mark '?', sign ":", self .type],
    ascription self]
  node "index_signature" [
    maybe (seq [maybe (choice [sign "-", sign "+"]), word "readonly"]),
    brackets (choice [clause, seq [field "name" (renamed "identifier" propertyWord), sign ":",
      self .type]]),
    maybe annotation]

/-- The statements that run when a class is made. -/
def staticBlock : Phrase :=
  node "class_static_block" [word "static", ahead (mark '\x7b'), body self false]

/-- The initial value was given. -/
def hasValue (ns : List Node) : Bool :=
  ns.any fun n => (n.children.any fun c => c.field == some "value")

/-- A member of a class and what ends it. -/
def classMember : Phrase :=
  let ended (p : Phrase) (comma : Bool) : Phrase :=
    Reader.bind p fun ns => Reader.bind
      (choice [semicolon (hasValue ns), if comma then sign "," else Reader.fail])
      fun e => Reader.pure (ns ++ e)
  choice [
    sign ";",
    staticBlock self,
    untyped (choice [
      seq [method self true, maybe (sign ";")],
      ended (fieldDefinition self) false]),
    typed (choice [
      seq [many (decorator self), method self true, maybe (semicolon false)],
      ended (methodSignature self "abstract_method_signature"
        (before (node "accessibility_modifier" [wordOf ["public", "private", "protected"]])
          (modifier true "abstract"))) true,
      ended (indexSignature self) true,
      ended (methodSignature self "method_signature" (Reader.pure [])) true,
      ended (typedFieldDefinition self) true])]

/-- The members of a class. -/
def classBody : Phrase := field "body" (node "class_body" [braces (many (classMember self))])

/-- What a class extends and implements. -/
def heritage : Phrase :=
  let parent := seq [field "value" (self (.target {})), maybe (typed (self .typeArguments))]
  let extended := node "extends_clause" [word "extends", separated (sign ",") parent]
  let implemented := node "implements_clause" [word "implements", separated (sign ",") (self .type)]
  choice [
    untyped (node "class_heritage" [word "extends", self (.expression {})]),
    typed (node "class_heritage" [choice [seq [extended, maybe implemented], implemented]])]

/-- The name of a class. -/
def className : Phrase :=
  choice [typed (renamed "type_identifier" (seq [notAhead (wordOf ["implements"]), identifier])),
    untyped identifier]

/-- A class after the words in front of it. -/
def classRest (name : Phrase) : Phrase :=
  seq [word "class", name, optionalTypeParameters self, maybe (heritage self), classBody self]

/-- A function after the words in front of it. -/
def functionRest (name : Phrase) (isOperand : Bool) : Phrase :=
  seq [name, signature self, body self isOperand]

end

end ScriptScrub.Script
