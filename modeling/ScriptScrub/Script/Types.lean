import ScriptScrub.Script.Class

/-!
# Types

The types of the dialects that have them.
-/

namespace ScriptScrub.Script

open Phrase

/-- Types that the language names. -/
def predefinedTypes : List String :=
  ["any", "number", "boolean", "string", "symbol", "void", "unknown", "never", "object"]

section
variable (self : Rules)

/-- The name of a type, with the name spaces that it is in. -/
def typeName : Phrase :=
  let single := token "type_identifier" true fun input i =>
    if (["typeof", "new", "void", "null", "true", "false", "this", "import", "function", "class",
        "const", "extends", "in", "if", "else", "for", "while", "return"].contains
        (input.wordAt i)) then none
    else input.wordEnd? i
  let nested := Reader.bind identifier fun first =>
    Reader.bind (seq [ahead (mark '.')]) fun _ =>
      Reader.bind (Reader.grow first fun object =>
        nodeAfter "nested_identifier" object
          [sign ".", seq [propertyWord, ahead (mark '.')]]) fun space =>
        nodeAfter "nested_type_identifier" space
          [sign ".", renamed "type_identifier" propertyWord]
  choice [nested, single]

/-- A type that a value is asked for. -/
def typeQuery : Phrase :=
  let imported := node "call_expression"
    [node "import" [word "import"], arguments self]
  let first := choice [imported, node "this" [word "this"], identifier]
  let path := Reader.bind first fun n => Reader.grow n fun object =>
    nodeAfter "member_expression" (object.map fun n => { n with field := some "object" })
      [choice [sign ".", sign "?."], field "property" (choice [privateName, propertyWord])]
  let instantiated := Reader.bind path fun n =>
    nodeAfter "instantiation_expression" n [self .typeArguments]
  node "type_query" [word "typeof", choice [instantiated, path]]

/-- A type that an imported file gives. -/
def importedType : Phrase :=
  let imported := node "call_expression"
    [field "function" (node "import" [word "import"]), arguments self]
  let member := Reader.bind imported fun n => Reader.grow n fun object =>
    nodeAfter "member_expression" (object.map fun n => { n with field := some "object" })
      [sign ".", field "property" (choice [privateName, propertyWord])]
  Reader.bind member fun n => Reader.orElse
    (nodeAfter "generic_type" n [self .typeArguments]) fun _ => Reader.pure n

/-- A member of a list type. -/
def tupleMember : Phrase :=
  choice [
    node "required_parameter" [field "name" (choice [node "rest_pattern" [sign "...", identifier],
      identifier]), ascription self],
    node "optional_parameter" [field "name" identifier, mark '?', ascription self],
    node "rest_type" [sign "...", self .type],
    node "optional_type" [self .type, mark '?'],
    self .type]

/-- Types that are literal values. -/
def literalType : Phrase :=
  let signedNumber := node "unary_expression" [choice [sign "-", sign "+"], number]
  node "literal_type" [choice [signedNumber, number, text, namedWord "true", namedWord "false",
    namedWord "null", namedWord "undefined"]]

/-- A type made of a text with other types in it. -/
def templateType : Phrase :=
  let plain := immediate "string_fragment" true fun input i =>
    let j := input.templateTextEnd (input.size - i) i
    if i < j then some j else none
  let inserted := node "template_type" [
    immediate "$\x7b" false fun input i =>
      if input.char i == '$' && input.char (i + 1) == '\x7b' then some (i + 2) else none,
    self .type, mark '\x7d']
  node "template_literal_type" [mark '\x60', many (choice [plain, escape, inserted]),
    immediate "\x60" false fun input i => if input.char i == '\x60' then some (i + 1) else none]

/-- A named type with its arguments. -/
def namedType : Phrase :=
  Reader.bind typeName fun name => fun input i =>
    match (nodeAfter "generic_type" name [self .typeArguments]) input i with
    | some result => some result
    | none => some (name, i)

/-- A type that stands by itself. -/
def plainType : Phrase :=
  choice [
    node "parenthesized_type" [parens (self .type)],
    self .objectType,
    node "tuple_type" [brackets (maybe (listed (tupleMember self)))],
    typeQuery self,
    node "index_type_query" [word "keyof", self .primaryType],
    node "this_type" [seq [word "this"]],
    literalType,
    templateType self,
    node "existential_type" [mark '*'],
    node "flow_maybe_type" [mark '?', self .primaryType],
    node "predefined_type" [seq [word "unique", word "symbol"]],
    node "predefined_type" [seq [wordOf predefinedTypes, notAhead (mark '.')]],
    importedType self,
    word "const",
    namedType self]

/-- A type that is followed by the signs of a list or of a member. -/
def suffixedType : Phrase :=
  Reader.bind (plainType self) fun first => Reader.grow first fun inner =>
    choice [
      nodeAfter "array_type" inner [mark '[', mark ']'],
      nodeAfter "lookup_type" inner [mark '[', self .type, mark ']']]

/-- A type of functions. -/
def functionType : Phrase :=
  let result := choice [
    node "asserts" [word "asserts", choice [
      node "type_predicate" [choice [node "this" [word "this"], identifier], word "is", self .type],
      node "this" [word "this"], identifier]],
    node "type_predicate" [choice [node "this" [word "this"], identifier], word "is", self .type],
    self .type]
  choice [
    node "function_type" [maybe (self .typeParameters), parameters self, sign "=>", result],
    node "constructor_type" [maybe (word "abstract"), word "new", maybe (self .typeParameters),
      parameters self, sign "=>", self .type]]

/-- What `Goal.primaryType` means. -/
def primaryType : Phrase := suffixedType self

/-- A type with the words in front of it. -/
def prefixedType : Phrase :=
  choice [
    node "readonly_type" [word "readonly", self .primaryType],
    node "infer_type" [word "infer", renamed "type_identifier" propertyWord,
      maybe (seq [word "extends", self .primaryType, notAhead (mark '?')])],
    functionType self,
    self .primaryType]

/-- Types joined by a sign that may also stand in front of the first of them. -/
def joinedTypes (kind : String) (c : Char) (one : Phrase) : Phrase :=
  let single : Phrase := fun input i =>
    -- the signs of the logical operators join no types
    let j := input.skipTrivia i
    if input.char j == c && input.char (j + 1) != c then (mark c) input i else none
  Reader.bind (choice [node kind [single, one], one]) fun first =>
    Reader.grow first fun left => nodeAfter kind left [single, one]

/-- What `Goal.type` means. -/
def anyType : Phrase :=
  Reader.bind (joinedTypes "union_type" '|' (joinedTypes "intersection_type" '&'
    (prefixedType self))) fun checked => fun input i =>
      let conditional := nodeAfter "conditional_type" checked
        [word "extends", self .type, mark '?', self .type, sign ":", self .type]
      match conditional input i with
      | some result => some result
      | none => some (checked, i)

/-- A list of types in angle brackets. -/
def typeArgumentList : Phrase :=
  node "type_arguments" [mark '<', listed (self .type), mark '>']

/-- The parameters of a type. -/
def typeParameterList : Phrase :=
  let one := node "type_parameter" [maybe (seq [word "const", ahead propertyWord]),
    before (wordOf ["in", "out"]) (before (wordOf ["in", "out"])
      (field "name" (renamed "type_identifier" propertyWord))),
    maybe (node "constraint" [choice [word "extends", sign ":"], self .type]),
    maybe (node "default_type" [sign "=", self .type])]
  node "type_parameters" [mark '<', listed one, mark '>']

/-- A property of an object type. -/
def propertySignature : Phrase :=
  node "property_signature" [
    before (node "accessibility_modifier" [wordOf ["public", "private", "protected"]])
      (before (word "static") (before (node "override_modifier" [word "override"])
        (before (word "readonly") (field "name" (propertyName self))))),
    maybe (sign "?"), optionalType self]

/-- A member of an object type. -/
def typeMember : Phrase :=
  choice [
    node "construct_signature" [maybe (word "abstract"), word "new", maybe (self .typeParameters),
      parameters self, maybe (ascription self)],
    node "call_signature" [ahead (choice [mark '(', mark '<']), signature self],
    indexSignature self,
    methodSignature self "method_signature" (Reader.pure []),
    propertySignature self]

/-- The members of an object type in braces. -/
def memberTypes : Phrase :=
  let separator := choice [sign ",", semicolon false]
  braces (seq [maybe (choice [sign ",", sign ";"]),
    maybe (seq [typeMember self, many (seq [separator, typeMember self]), maybe separator])])

/-- What `Goal.objectType` means. -/
def objectType : Phrase := node "object_type" [memberTypes self]

end

end ScriptScrub.Script
