import ScriptScrub.Syntax.Node

/-!
# Declared names

Which names a node of the tree declares for everything inside it: parameters, variables, functions,
classes, imports, the variable of a loop or of a `catch`, and the function's or class's own name.
-/

namespace ScriptScrub.Scope

/-- Nodes that are functions. -/
def functionKinds : List String :=
  ["function_declaration", "function_expression", "function", "generator_function",
   "generator_function_declaration", "arrow_function", "method_definition"]

/-- Expressions that bind their own name inside themselves. -/
def selfNamedKinds : List String :=
  ["function_expression", "function", "generator_function", "class"]

/-- Nodes whose children are statements that declare names for the whole node. -/
def blockKinds : List String :=
  ["program", "statement_block", "class_static_block", "switch_case", "switch_default"]

/-- Declarations that bind the name they carry. -/
def namedDeclarationKinds : List String :=
  ["function_declaration", "generator_function_declaration", "class_declaration",
   "abstract_class_declaration", "enum_declaration"]

/-- Patterns that bind what their parts bind. -/
def compoundPatternKinds : List String := ["object_pattern", "array_pattern", "rest_pattern"]

/-- The field of a pattern of this kind that holds the names it binds. -/
def boundField? : String → Option String
  | "pair_pattern" => some "value"
  | "assignment_pattern" | "object_assignment_pattern" => some "left"
  | "required_parameter" | "optional_parameter" => some "pattern"
  | _ => none

section
variable (source : Bytes)

mutual

/-- The names that a parameter or a pattern binds: never keys and never defaults. -/
def patternNames : Node → List String
  | n@⟨kind, _, _, _, _, _, _, children⟩ =>
    if kind = "identifier" ∨ kind = "shorthand_property_identifier_pattern" then [n.text source]
    else if kind ∈ compoundPatternKinds then namedPatternNames children
    else match boundField? kind with
      | some field => fieldPatternNames field children
      | none => []

/-- The names that the named ones of some nodes bind. -/
def namedPatternNames : List Node → List String
  | [] => []
  | n :: ns =>
    if n.named then patternNames n ++ namedPatternNames ns else namedPatternNames ns

/-- The names that the first of some nodes that fills `field` binds. -/
def fieldPatternNames (field : String) : List Node → List String
  | [] => []
  | n :: ns => if n.field == some field then patternNames n else fieldPatternNames field ns

end

/-- The names that a child in a field binds. -/
def childPatternNames (n : Node) (field : String) : List String :=
  fieldPatternNames source field n.children

/-- The name that a node carries. -/
def ownName (n : Node) : List String := ((n.child? "name").map (·.text source)).toList

/-- The names that one part of an import clause binds. -/
def importPartNames (part : Node) : List String :=
  match part.kind with
  | "identifier" => [part.text source]
  | "namespace_import" =>
    (part.namedChildren.filter (·.kind == "identifier")).map (·.text source)
  | "named_imports" =>
    (part.namedChildren.filter (·.kind == "import_specifier")).flatMap fun specifier =>
      (((specifier.child? "alias").or (specifier.child? "name")).map (·.text source)).toList
  | _ => []

/-- The names that an import binds. -/
def importNames (statement : Node) : List String :=
  (statement.namedChildren.filter (·.kind == "import_clause")).flatMap fun clause =>
    clause.namedChildren.flatMap (importPartNames source)

/-- The names that the variables of a declaration bind. -/
def variableNames (declaration : Node) : List String :=
  (declaration.namedChildren.filter (·.kind == "variable_declarator")).flatMap fun declarator =>
    childPatternNames source declarator "name"

mutual

/-- The names that a statement declares in the block that it stands in. -/
def statementNames : Node → List String
  | n@⟨kind, _, _, _, _, _, _, children⟩ =>
    if kind = "export_statement" then exportedNames children
    else if kind = "lexical_declaration" ∨ kind = "variable_declaration" then
      variableNames source n
    else if kind ∈ namedDeclarationKinds then ownName source n
    else if kind = "import_statement" then importNames source n
    else []

/-- The names that the declaration among the parts of an export declares. -/
def exportedNames : List Node → List String
  | [] => []
  | n :: ns => if n.field == some "declaration" then statementNames n else exportedNames ns

end

/-- A loop over the members of a value that declares its variable with `var`. -/
def isVarLoop (n : Node) : Bool :=
  n.kind == "for_in_statement" && (n.child? "kind").any fun k => k.text source == "var"

/-- The names that a node itself hoists to its function. -/
def hoistedHere (n : Node) : List String :=
  if n.kind = "variable_declaration" then statementNames source n
  else if isVarLoop source n then childPatternNames source n "left"
  else []

/-- The names that a walk with a stack of nodes comes to: those that the node on top hoists. Its
children with a name take its place, the last on top; a function is left out. -/
def hoistedStack : List Node → List String
  | [] => []
  | n :: ns =>
    if n.kind ∈ functionKinds then hoistedStack ns
    else hoistedHere source n ++ hoistedStack (n.namedChildren.reverse ++ ns)
termination_by ns => Node.total ns
decreasing_by
  · exact Node.total_tail n ns
  · exact Node.total_namedChildren n ns

/-- The names that `var` declares below a body. -/
def hoistedNames (body : Node) : List String := hoistedStack source body.namedChildren.reverse

/-- The names of a function's parameters and of the variables that its body hoists. -/
def functionNames (n : Node) : List String :=
  let parameters := match n.child? "parameters" with
    | some list => namedPatternNames source list.children
    | none => []
  let body := match n.child? "body" with
    | some body => if body.kind = "statement_block" then hoistedNames source body else []
    | none => []
  parameters ++ childPatternNames source n "parameter" ++ body

/-- The names that the statements of a block declare. -/
def blockNames (n : Node) : List String :=
  n.namedChildren.flatMap (statementNames source) ++
    (if n.kind = "program" then hoistedNames source n else [])

/-- The names that the head of a loop or of a `catch` declares. -/
def headNames (n : Node) : List String :=
  match n.kind with
  | "for_statement" => ((n.child? "initializer").map (statementNames source)).getD []
  | "for_in_statement" =>
    if (n.child? "kind").isSome then childPatternNames source n "left" else []
  | "catch_clause" => childPatternNames source n "parameter"
  | _ => []

/-- The names that a node declares for everything inside it. -/
def declaredNames (n : Node) : List String :=
  (if n.kind ∈ functionKinds then functionNames source n else []) ++
  (if n.kind ∈ selfNamedKinds then ownName source n else []) ++
  (if n.kind ∈ blockKinds then blockNames source n else headNames source n)

end

end ScriptScrub.Scope
