import ScriptScrub.Text.Utf8

/-!
# Edits of a source text

An edit replaces one range of bytes. An edit with an empty replacement is a removal, which the
splicer is free to widen over the white space around it.
-/

namespace ScriptScrub

/-- The rewrites that the sanitizer knows. -/
inductive Rule where
  /-- Diagnostic calls and detached references to diagnostic methods go. -/
  | removeDiagnosticCall
  /-- Comments go. -/
  | stripComments
deriving Repr, DecidableEq, Inhabited

namespace Rule

/-- The name of a rule in a configuration. -/
def name : Rule → String
  | removeDiagnosticCall => "remove_diagnostic_call"
  | stripComments => "strip_comments"

/-- Every rule, in the order in which they are listed. -/
def all : List Rule := [removeDiagnosticCall, stripComments]

/-- The rule of a given name. -/
def ofName? (s : String) : Option Rule := all.find? (·.name == s)

end Rule

/-- A range of bytes and what to put in its place. -/
structure Edit where
  start : Nat
  stop : Nat
  replacement : String := ""
deriving Repr, DecidableEq, Inhabited

/-- An edit that puts nothing in the place of its range. -/
def Edit.isRemoval (e : Edit) : Bool := e.replacement.isEmpty

/-- An edit together with the rule that asked for it. -/
structure RuleEdit extends Edit where
  rule : Rule
deriving Repr, DecidableEq, Inhabited

end ScriptScrub
