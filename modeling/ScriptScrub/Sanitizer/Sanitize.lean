import ScriptScrub.Edit.Splice
import ScriptScrub.Sanitizer.Matching
import ScriptScrub.Scope.Lookup
import ScriptScrub.Syntax.Grammar

/-!
# Sanitizing a text

A text is parsed, the edits of its tree are spliced into it, and the result is parsed again: a
rewrite that is no script any more is a failure of the file, not a result. Names are collected by
calls inside calls, and if the stack has no room for them sanitizing breaks down.
-/

namespace ScriptScrub.Sanitizer

open Config (SanitizerSettings)

/-- A sanitized text and how much was removed from it. -/
structure Sanitized where
  code : String
  removedCalls : Nat
  removedComments : Nat
deriving Repr, DecidableEq

/-- What is handed out for a file: its sanitized text, or the failure that there is none of. -/
structure Result where
  path : String
  code : Option String := none
  error : Option FailureReport := none
  removedCalls : Nat := 0
  removedComments : Nat := 0
deriving Repr, DecidableEq

/-- What is handed out for the file at a path. -/
def Result.of (path : String) : Except Failure Sanitized → Result
  | .ok s =>
    { path, code := some s.code, removedCalls := s.removedCalls,
      removedComments := s.removedComments }
  | .error f => { path := f.path, error := some f.report }

/-- How sanitizing can come to no result. The first two take a tree that does not fit its source. -/
inductive Breakdown where
  /-- An edit reaches outside the text. -/
  | editOutOfRange
  /-- A character was cut apart. -/
  | outputNotText
  /-- The names of a node are nested too deep for the stack. -/
  | stackOverflow
deriving Repr, DecidableEq

/-- The sentence that tells a breakdown. -/
def Breakdown.message : Breakdown → String
  | editOutOfRange => "bytearray index out of range"
  | outputNotText => "output is not UTF-8"
  | stackOverflow => "maximum recursion depth exceeded"

/-- The walk that collects the edits of a tree, the declared names being looked up in a fresh index,
and what that index has become. -/
def walked (source : Bytes) (settings : SanitizerSettings) (root : Node) :
    List RuleEdit × Scope.Index :=
  collect source settings (Scope.Index.isBound source) root |>.run {}

/-- The edits of a tree. -/
def editsOf (source : Bytes) (settings : SanitizerSettings) (root : Node) : List RuleEdit :=
  (collect source settings (Scope.Index.isBound source) root |>.run {}).1

/-- Nothing but white space. -/
def isBlankOutput (bytes : Bytes) : Bool :=
  bytes.all fun b => b == 0x20 || (0x09 ≤ b && b ≤ 0x0D)

/-- Checks what splicing left of a source: something, and again a script if there were edits. -/
def checkOutput (again : Parser) (path : String) (edits : List RuleEdit) (output : Bytes) :
    Except Failure Unit :=
  if isBlankOutput output then .error ⟨path, .noOutput, none⟩
  else if edits.isEmpty then .ok ()
  else match again path output with
    | .ok _ => .ok ()
    | .error e => .error ⟨path, .brokenRewrite e.cause, e.location⟩

/-- Rewrites a source whose tree is known. A stack that overflows does so in the walk, before
anything is spliced. -/
def rewriteTree (again : Parser) (settings : SanitizerSettings) (path : String) (source : Bytes)
    (root : Node) (room : Scope.Room := .endless) :
    Except Breakdown (Except Failure Sanitized) :=
  let (edits, index) := walked source settings root
  if !room.holds index.depth then .error .stackOverflow
  else match Edit.spliced? source (edits.map (·.toEdit)) with
  | none => .error .editOutOfRange
  | some output =>
    match checkOutput again path edits output with
    | .error e => .ok (.error e)
    | .ok () =>
      match Text.decode? output with
      | none => .error .outputNotText
      | some code =>
        let calls := edits.countP fun e => e.rule = .removeDiagnosticCall
        .ok (.ok ⟨code, calls, edits.length - calls⟩)

/-- Sanitizes the text of the file at a path. The parser `first` parses the text, the parser `again`
what became of it. -/
def sanitizeBy (first again : Parser) (settings : SanitizerSettings) (text : List CodePoint)
    (path : String) (room : Scope.Room := .endless) :
    Except Breakdown (Except Failure Sanitized) :=
  match Text.encode? text with
  | none => .ok (.error ⟨path, .unencodable, none⟩)
  | some source =>
    match first path source with
    | .error e => .ok (.error e)
    | .ok root => rewriteTree again settings path source root room

/-- Sanitizes the text of the file at a path, with the grammars `first` and `again` for the two
parses. -/
def sanitizeWith (first again : Grammar) (settings : SanitizerSettings) (text : List CodePoint)
    (path : String) (room : Scope.Room := .endless) :
    Except Breakdown (Except Failure Sanitized) :=
  sanitizeBy first.parse again.parse settings text path room

end ScriptScrub.Sanitizer
