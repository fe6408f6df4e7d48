import ScriptScrub.Sanitizer.Reference

/-!
# Matching nodes

The edit that a node asks for, and the edits of a whole tree: those of the nodes that ask for one
and lie below no other such node.
-/

namespace ScriptScrub.Sanitizer

open Config (SanitizerSettings)

/-- Nodes whose children are a list of statements, from which one may simply vanish. -/
def statementListKinds : List String :=
  ["program", "statement_block", "switch_case", "switch_default", "class_static_block"]

/-- What takes the place of a statement that has to stay one. -/
def emptyBlock : String := "\x7b\x7d"

/-- What takes the place of a call whose value is used. -/
def voidExpression : String := "void 0"

/-- What takes the place of a function that is used as a value. -/
def emptyFunction : String := "function () \x7b\x7d"

/-- The edit that puts a text in the place of a diagnostic node. -/
def diagnosticEdit (n : Node) (replacement : String) : RuleEdit :=
  ⟨⟨n.start, n.stop, replacement⟩, .removeDiagnosticCall⟩

/-- The one expression that an expression statement consists of. -/
def statementExpression? (p : Place) : Option Place :=
  match p.namedChildren.filter (fun c => !isComment c.node) with
  | [e] => some e
  | _ => none

/-- A place where a statement may vanish without leaving a gap. -/
def inStatementList (p : Place) : Bool :=
  match p.parent? with
  | none => true
  | some (parent, _) => statementListKinds.contains parent.kind

section
variable (source : Bytes) (settings : SanitizerSettings)
variable {m : Type → Type} [Monad m] (bound : Place → m Bool)

/-- An expression that is worth nothing once its diagnostic part is gone. -/
def isRemovableExpression (p : Place) : m Bool := do
  if ← isRemovableCall source settings bound p then pure true
  else if ← isRemovableBind source settings bound p then pure true
  else isDetachedReference source settings bound p

/-- The edit that a place asks for by itself. -/
def match? (p : Place) : m (Option RuleEdit) := do
  let n := p.node
  if isComment n then
    if settings.rules.contains .stripComments then
      pure (some ⟨⟨n.start, n.stop, ""⟩, .stripComments⟩)
    else pure none
  else if !settings.rules.contains .removeDiagnosticCall then pure none
  else if n.kind = "expression_statement" then
    match statementExpression? p with
    | none => pure none
    | some e =>
      if ← isRemovableExpression source settings bound e then
        pure (some (diagnosticEdit n (if inStatementList p then "" else emptyBlock)))
      else pure none
  else if n.kind = "call_expression" then
    if ← isRemovableCall source settings bound p then
      pure (some (diagnosticEdit n voidExpression))
    else if ← isRemovableBind source settings bound p then
      pure (some (diagnosticEdit n emptyFunction))
    else pure none
  else if accessKinds.contains n.kind then
    if ← isDetachedReference source settings bound p then
      pure (some (diagnosticEdit n emptyFunction))
    else pure none
  else pure none

/-- The edits that a walk with a stack of places comes to: the place on top asks for one, or else
the places of its children are put on the stack. -/
def collectStack : List Place → m (List RuleEdit)
  | [] => pure []
  | p :: ps => do
    match ← match? source settings bound p with
    | some edit => return edit :: (← collectStack ps)
    | none => collectStack (p.children ++ ps)
termination_by ps => Place.total ps
decreasing_by
  · exact Place.total_tail p ps
  · exact Place.total_children p ps

/-- The edits of a tree by ascending start. -/
def collect (root : Node) : m (List RuleEdit) := do
  let edits ← collectStack source settings bound [⟨root, []⟩]
  pure (edits.mergeSort fun a b => a.start ≤ b.start)

end

end ScriptScrub.Sanitizer
