import ScriptScrub.Scope.Declared

/-!
# How deep names are collected

Collecting the names of a node is done by calls inside calls: a statement asks its patterns, and a
pattern asks its parts. The depth of a node is the number of calls that are open at once while its
names are collected, and the stack that they are made on has room for so many and no more.

Each function here follows the one in `Scope.Declared` that it counts the calls of. Reading the text
or the children of a node is no call.
-/

namespace ScriptScrub.Scope

/-- How many calls may be open at once. -/
inductive Room where
  | endless
  | calls (most : Nat)
deriving Repr, DecidableEq, Inhabited

/-- There is room for so many calls. -/
def Room.holds : Room → Nat → Bool
  | endless, _ => true
  | calls most, depth => depth ≤ most

/-- What is left of a stack of a thousand calls when the first name is collected. -/
def Room.usual : Room := .calls 970

/-- The depth of the deepest of some nodes. -/
def deepest (depth : Node → Nat) (ns : List Node) : Nat := ns.foldr (fun n => max (depth n)) 0

mutual

/-- The depth of a parameter or a pattern. -/
def patternDepth : Node → Nat
  | ⟨kind, _, _, _, _, _, _, children⟩ =>
    if kind ∈ compoundPatternKinds then namedPatternDepth children + 1
    else match boundField? kind with
      | some field => fieldPatternDepth field children + 1
      | none => 1

/-- The depth of the deepest of the named ones of some nodes. -/
def namedPatternDepth : List Node → Nat
  | [] => 0
  | n :: ns =>
    if n.named then max (patternDepth n) (namedPatternDepth ns) else namedPatternDepth ns

/-- The depth of the first of some nodes that fills `field`. If none does, the call is made all the
same. -/
def fieldPatternDepth (field : String) : List Node → Nat
  | [] => 1
  | n :: ns => if n.field == some field then patternDepth n else fieldPatternDepth field ns

end

/-- The depth of a child in a field. -/
def childPatternDepth (n : Node) (field : String) : Nat := fieldPatternDepth field n.children

/-- The depth of the variables of a declaration. -/
def variableDepth (declaration : Node) : Nat :=
  deepest (fun declarator => childPatternDepth declarator "name")
    (declaration.namedChildren.filter (·.kind == "variable_declarator"))

mutual

/-- The depth of a statement. -/
def statementDepth : Node → Nat
  | n@⟨kind, _, _, _, _, _, _, children⟩ =>
    if kind = "export_statement" then exportedDepth children + 1
    else if kind = "lexical_declaration" ∨ kind = "variable_declaration" then variableDepth n + 1
    else if kind = "import_statement" then 2
    else 1

/-- The depth of the declaration among the parts of an export. -/
def exportedDepth : List Node → Nat
  | [] => 1
  | n :: ns => if n.field == some "declaration" then statementDepth n else exportedDepth ns

end

section
variable (source : Bytes)

/-- The depth of what a node itself hoists to its function. -/
def hoistedHereDepth (n : Node) : Nat :=
  if n.kind = "variable_declaration" then statementDepth n
  else if isVarLoop source n then childPatternDepth n "left"
  else 0

/-- The depth of the deepest node that the walk with a stack comes to. -/
def hoistedStackDepth : List Node → Nat
  | [] => 0
  | n :: ns =>
    if n.kind ∈ functionKinds then hoistedStackDepth ns
    else max (hoistedHereDepth source n) (hoistedStackDepth (n.namedChildren.reverse ++ ns))
termination_by ns => Node.total ns
decreasing_by
  · exact Node.total_tail n ns
  · exact Node.total_namedChildren n ns

/-- The depth of what `var` declares below a body. -/
def hoistedDepth (body : Node) : Nat := hoistedStackDepth source body.namedChildren.reverse + 1

/-- The depth of a function's parameters and of the variables that its body hoists. -/
def functionDepth (n : Node) : Nat :=
  let parameters := match n.child? "parameters" with
    | some list => namedPatternDepth list.children
    | none => 0
  let body := match n.child? "body" with
    | some body => if body.kind = "statement_block" then hoistedDepth source body else 0
    | none => 0
  max parameters (max (childPatternDepth n "parameter") body)

/-- The depth of the statements of a block. -/
def blockDepth (n : Node) : Nat :=
  max (deepest statementDepth n.namedChildren)
    (if n.kind = "program" then hoistedDepth source n else 0)

/-- The depth of the head of a loop or of a `catch`. -/
def headDepth (n : Node) : Nat :=
  match n.kind with
  | "for_statement" => ((n.child? "initializer").map statementDepth).getD 1
  | "for_in_statement" => if (n.child? "kind").isSome then childPatternDepth n "left" else 0
  | "catch_clause" => childPatternDepth n "parameter"
  | _ => 0

/-- The depth of a node: the calls that are open at once while the names are collected that it
declares for everything inside it. -/
def declaredDepth (n : Node) : Nat :=
  max (if n.kind ∈ functionKinds then functionDepth source n else 0)
    (if n.kind ∈ blockKinds then blockDepth source n else headDepth n)

end

end ScriptScrub.Scope
