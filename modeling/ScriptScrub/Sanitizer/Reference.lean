import ScriptScrub.Config.Settings
import ScriptScrub.Syntax.Place

/-!
# Diagnostic references

Which nodes name a method of a diagnostic object, call one, bind one or hand one on as a value.
Whether a name is bound by the script itself is asked of a function `bound`, in whatever monad it
lives.
-/

namespace ScriptScrub.Sanitizer

open Config (SanitizerSettings)

/-- Comments of both spellings. -/
def commentKinds : List String := ["comment", "html_comment"]

/-- The node is a comment. -/
def isComment (n : Node) : Bool := commentKinds.contains n.kind

/-- The two ways to name a member of an object. -/
def accessKinds : List String := ["member_expression", "subscript_expression"]

/-- Methods that call the function they are asked of. -/
def forwardingMethods : List String := ["call", "apply"]

/-- The two kinds of assignment. -/
def assignmentKinds : List String := ["assignment_expression", "augmented_assignment_expression"]

section
variable (source : Bytes)

/-- A text without its first and its last character. -/
def unquote (s : String) : String := String.ofList (s.toList.drop 1).dropLast

/-- The object of `a.b` or of `a['b']` with the name of the member. -/
def access? (p : Place) : Option (Place × String) :=
  if p.kind = "member_expression" then do
    let object ← p.child? "object"
    let property ← p.child? "property"
    if property.kind = "property_identifier" ∨ property.kind = "identifier" then
      some (object, property.node.text source)
    else none
  else if p.kind = "subscript_expression" then do
    let object ← p.child? "object"
    let index ← p.child? "index"
    if index.kind = "string" then some (object, unquote (index.node.text source)) else none
  else none

variable (settings : SanitizerSettings)
variable {m : Type → Type} [Monad m] (bound : Place → m Bool)

/-- The method that a reference to a diagnostic object names. -/
def referenceSeverity (p : Place) : m (Option String) :=
  match access? source p with
  | none => pure none
  | some (object, severity) =>
    if object.kind == "identifier" &&
        settings.diagnosticObjects.contains (object.node.text source) then do
      if ← bound object then pure none else pure (some severity)
    else pure none

/-- A method that may be removed. -/
def isRemovableSeverity : Option String → Bool
  | some severity => !settings.preservedSeverities.contains severity
  | none => false

/-- A reference to a method that may be removed. -/
def isRemovableReference (p : Place) : m Bool :=
  isRemovableSeverity settings <$> referenceSeverity source settings bound p

/-- The method that a diagnostic call calls, directly or by `call` or `apply`. -/
def callSeverity (p : Place) : m (Option String) :=
  if p.kind ≠ "call_expression" then pure none
  else match p.child? "function" with
    | none => pure none
    | some callee => do
      match ← referenceSeverity source settings bound callee with
      | some severity => pure (some severity)
      | none =>
        match access? source callee with
        | some (object, method) =>
          if forwardingMethods.contains method then
            referenceSeverity source settings bound object
          else pure none
        | none => pure none

/-- A diagnostic call that may be removed. -/
def isRemovableCall (p : Place) : m Bool :=
  isRemovableSeverity settings <$> callSeverity source settings bound p

/-- A call of `bind` on a reference that may be removed. -/
def isRemovableBind (p : Place) : m Bool :=
  if p.kind ≠ "call_expression" then pure false
  else match (p.child? "function").bind (access? source) with
    | some (object, "bind") => isRemovableReference source settings bound object
    | _ => pure false

/-- The place is one where a reference is used as a value: it is neither the object of a further
access nor the target of an assignment. -/
def isValuePosition (p : Place) : Bool :=
  match p.parent? with
  | none => true
  | some (parent, _) =>
    if accessKinds.contains parent.kind && p.fills "object" then false
    else if assignmentKinds.contains parent.kind then !p.fills "left"
    else true

/-- A reference that may be removed and is used as a value. -/
def isDetachedReference (p : Place) : m Bool := do
  if ← isRemovableReference source settings bound p then pure (isValuePosition p) else pure false

end

end ScriptScrub.Sanitizer
