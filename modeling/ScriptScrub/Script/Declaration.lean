import ScriptScrub.Script.Types
import ScriptScrub.Script.Expression

/-!
# Declarations

Variables, functions, classes, and what the dialects with types declare besides.
-/

namespace ScriptScrub.Script

open Phrase

section
variable (self : Rules)

/-! ### Variables -/

/-- A variable with its type and its initial value. -/
def declarator (c : Context) : Phrase :=
  node "variable_declarator" [
    choice [
      typed (seq [field "name" identifier, sign "!", ascription self]),
      seq [field "name" (self .pattern), optionalType self]],
    maybe (initializer self c)]

/-- Variables between commas and what ends the statement. -/
def declarators (c : Context) : Phrase :=
  Reader.bind (separated (sign ",") (declarator self c)) fun ns =>
    Reader.bind (semicolon (hasValue (ns.getLast?.toList))) fun e => Reader.pure (ns ++ e)

/-- A declaration of variables. -/
def variableList (c : Context) : Phrase :=
  choice [
    node "variable_declaration" [word "var", declarators self c],
    node "lexical_declaration"
      [field "kind" (choice [word "const", seq [word "let", goesOn { lineEnds := true } true]]),
        declarators self c],
    node "using_declaration"
      [field "kind" (choice [seq [word "using", goesOn { lineEnds := true } true],
        seq [word "await", word "using"]]),
        notAhead (wordOf ["in", "instanceof", "of", "as", "satisfies"]), ahead identifier,
        declarators self c]]

/-! ### Functions and classes -/

/-- A function that is declared. -/
def functionDeclaration : Phrase :=
  let front := before (seq [word "async", goesOn { lineEnds := true } true]) (word "function")
  let name := field "name" identifier
  choice [
    node "generator_function_declaration" [front, sign "*", functionRest self name false,
      maybe (lineEnd false)],
    node "function_declaration" [front, functionRest self name false, maybe (lineEnd false)],
    typed (node "function_signature" [front, name, signature self, semicolon false])]

/-- A class that is declared. -/
def classDeclaration : Phrase :=
  let name := field "name" className
  choice [
    node "class_declaration" [many (decorator self), classRest self name, maybe (lineEnd false)],
    typed (node "abstract_class_declaration"
      [many (decorator self), word "abstract", classRest self name])]

/-! ### Names for types and name spaces -/

/-- The name of a name space. -/
def spaceName : Phrase :=
  Reader.bind identifier fun first => Reader.grow first fun object =>
    nodeAfter "nested_identifier" object [sign ".", propertyWord]

/-- A name space and its statements. -/
def moduleRest : Phrase :=
  seq [field "name" (choice [text, spaceName]), maybe (field "body" (self (.block false)))]

/-- A name space. -/
def internalModule : Phrase :=
  node "internal_module" [word "namespace", goesOn { lineEnds := true } true, moduleRest self]

/-- The members of an enumeration. -/
def enumBody : Phrase :=
  let one := choice [
    node "enum_assignment" [field "name" (propertyName self), initializer self {}],
    field "name" (propertyName self)]
  field "body" (node "enum_body" [braces (maybe (listed one))])

/-- A short name for a name space. -/
def importAlias : Phrase :=
  node "import_alias" [word "import", identifier, sign "=", spaceName, semicolon false]

/-- What only the dialects with types declare. -/
def typeDeclaration : Phrase :=
  let name := field "name" (renamed "type_identifier" propertyWord)
  let here := goesOn { lineEnds := true } true
  choice [
    node "module" [word "module", here, moduleRest self],
    internalModule self,
    node "type_alias_declaration" [word "type", here, name, optionalTypeParameters self, sign "=",
      field "value" (self .type), semicolon false],
    node "enum_declaration" [maybe (word "const"), word "enum", field "name" identifier,
      enumBody self],
    node "interface_declaration" [word "interface", name, optionalTypeParameters self,
      maybe (node "extends_type_clause" [word "extends", separated (sign ",") (self .type)]),
      field "body" (renamed "interface_body" (self .objectType))],
    importAlias]

/-- A declaration. -/
def declaration : Phrase :=
  choice [functionDeclaration self, classDeclaration self, typed (typeDeclaration self),
    variableList self { lineEnds := true }]

/-- A declaration of what exists elsewhere. -/
def ambientDeclaration : Phrase :=
  node "ambient_declaration" [word "declare", goesOn { lineEnds := true } true, choice [
    declaration self,
    seq [word "global", self (.block false)],
    seq [word "module", sign ".", propertyWord, sign ":", self .type, semicolon false]]]

/-! ### Imports and exports -/

/-- The name of something that a module exports. -/
def exportedName : Phrase := choice [word "default", identifier, text]

/-- Where something is imported from. -/
def fromClause : Phrase := seq [word "from", text]

/-- What an import tells about the file it names. -/
def importAttribute : Phrase :=
  node "import_attribute" [wordOf ["with", "assert"], objectLiteral self]

/-- One name that is imported. -/
def importSpecifier : Phrase :=
  let sort := typed (wordOf ["type", "typeof"])
  let renamedImport := seq [field "name" exportedName, word "as", field "alias" identifier]
  let plainImport := seq [field "name" identifier, notAhead (word "as")]
  let both := choice [renamedImport, plainImport]
  node "import_specifier" [before sort (seq [both, ahead (choice [sign ",", mark '\x7d'])])]

/-- The names that are imported. -/
def importClause : Phrase :=
  let space := node "namespace_import" [sign "*", word "as", identifier]
  let names := node "named_imports" [braces (maybe (listed importSpecifier))]
  node "import_clause" [choice [space, names,
    seq [identifier, maybe (seq [sign ",", choice [space, names]])]]]

/-- An import. -/
def importStatement : Phrase :=
  let require := node "import_require_clause"
    [identifier, sign "=", word "require", parens text]
  node "import_statement" [word "import",
    choice [
      before (typed (wordOf ["type", "typeof"]))
        (choice [seq [importClause, fromClause], typed require]),
      text],
    maybe (importAttribute self), semicolon false]

/-- One name that is exported. -/
def exportSpecifier : Phrase :=
  node "export_specifier" [before (typed (wordOf ["type", "typeof"]))
    (seq [field "name" exportedName, maybe (seq [word "as", field "alias" exportedName]),
      ahead (choice [sign ",", mark '\x7d'])])]

/-- The names that are exported. -/
def exportClause : Phrase := node "export_clause" [braces (maybe (listed exportSpecifier))]

/-- An export. -/
def exportStatement : Phrase :=
  let space := node "namespace_export" [sign "*", word "as", exportedName]
  let source := seq [fromClause, maybe (importAttribute self)]
  let start := seq [word "export", goesOn { lineEnds := true } true]
  let standard := seq [word "default", choice [
    field "declaration" (choice [functionDeclaration self, classDeclaration self,
      typed (node "interface_declaration" [word "interface",
        field "name" (renamed "type_identifier" propertyWord), optionalTypeParameters self,
        maybe (node "extends_type_clause" [word "extends", separated (sign ",") (self .type)]),
        field "body" (renamed "interface_body" (self .objectType))])]),
    seq [field "value" (self (.expression { lineEnds := true })), semicolon true]]]
  choice [
    node "export_statement" [start, choice [
      seq [sign "*", source],
      seq [space, source],
      seq [exportClause, source],
      exportClause], semicolon false],
    node "export_statement" [many (decorator self), start, choice [
      standard,
      field "declaration" (choice [declaration self, typed (ambientDeclaration self)])]],
    typed (node "export_statement" [start, choice [
      seq [word "type", exportClause, maybe fromClause, semicolon false],
      seq [word "type", choice [sign "*", space], source, semicolon false],
      seq [word "import", identifier, sign "=", spaceName, semicolon false],
      seq [sign "=", self (.expression { lineEnds := true }), semicolon true],
      seq [word "as", word "namespace", identifier, semicolon false]]])]

end

end ScriptScrub.Script
