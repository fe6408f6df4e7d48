import ScriptScrub.Config.Check
import ScriptScrub.Dialect

/-!
# Failures of single files

Why a file could not be sanitized. A `Failure` holds the cause; a `FailureReport` is what is shown
of it: the class of the failure, a sentence, and the place in the file if there is one.
-/

namespace ScriptScrub

/-- Results are compared by what they hold. -/
instance decidableEqResult {ε α : Type} [DecidableEq ε] [DecidableEq α] :
    DecidableEq (Except ε α)
  | .ok a, .ok b => decidable_of_iff (a = b) ⟨congrArg Except.ok, Except.ok.inj⟩
  | .error e, .error f => decidable_of_iff (e = f) ⟨congrArg Except.error, Except.error.inj⟩
  | .ok _, .error _ => isFalse nofun
  | .error _, .ok _ => isFalse nofun

/-- The classes of failures. -/
inductive FailureKind where
  | parse
  | serialization
  | unsupported
  | io
deriving Repr, DecidableEq, Inhabited

namespace FailureKind

/-- The name of a class. -/
def name : FailureKind → String
  | parse => "parse"
  | serialization => "serialization"
  | unsupported => "unsupported"
  | io => "io"

/-- The class of a given name. -/
def ofName? (s : String) : Option FailureKind :=
  [parse, serialization, unsupported, io].find? (·.name == s)

end FailureKind

/-- A failure as it is reported. Lines and columns count from one. -/
structure FailureReport where
  path : String
  kind : FailureKind
  message : String
  line : Option Int := none
  column : Option Int := none
deriving Repr, DecidableEq, Inhabited

namespace FailureReport

/-- The message, followed by the place if the line is known. -/
def describe (r : FailureReport) : String :=
  match r.line, r.column with
  | none, _ => r.message
  | some line, none => s!"{r.message} (line {line})"
  | some line, some column => s!"{r.message} (line {line}, column {column})"

/-- Reads a report from the entries of a table. -/
def read (es : Config.Entries) : Config.Checked FailureReport :=
  open Config in
  Checked.ap (Checked.ap (Checked.ap (Checked.ap (Checked.ap (.ok FailureReport.mk)
    (es.required "file_path" Value.asText))
    (es.required "kind" (Value.asChoice FailureKind.ofName?)))
    (es.required "message" Value.asText))
    (es.optional "line" (Value.asOptional Value.asWhole) none))
    (es.optional "column" (Value.asOptional Value.asWhole) none)

end FailureReport

/-- Why a file could not be sanitized. -/
inductive Cause where
  /-- No dialect has this suffix. -/
  | unsupportedType (suffix : String)
  /-- The grammar of a dialect could not be had. -/
  | noGrammar (dialect : Dialect) (reason : String)
  /-- The source is broken, but no node of its tree tells where. -/
  | syntaxError
  /-- A token stands where the grammar has no place for it. -/
  | unexpectedToken
  /-- A token that the grammar demands is not there. -/
  | missingToken (kind : String)
  /-- The text holds an unpaired surrogate. -/
  | unencodable
  /-- Nothing but white space is left. -/
  | noOutput
  /-- What is left is no longer a script. -/
  | brokenRewrite (why : Cause)
  /-- The file could not be read. -/
  | unreadable (reason : String)
  /-- The file could not be written. -/
  | unwritable (reason : String)
deriving Repr, DecidableEq, Inhabited

namespace Cause

/-- The class that a cause belongs to. -/
def kind : Cause → FailureKind
  | unsupportedType _ => .unsupported
  | noGrammar _ _ | syntaxError | unexpectedToken | missingToken _ => .parse
  | unencodable | unreadable _ | unwritable _ => .io
  | noOutput | brokenRewrite _ => .serialization

/-- The sentence that tells a cause. -/
def message : Cause → String
  | unsupportedType suffix =>
    "Unsupported file type: " ++ (if suffix.isEmpty then "(none)" else suffix)
  | noGrammar dialect reason => s!"Failed to load {dialect.name} grammar: {reason}"
  | syntaxError => "Syntax error"
  | unexpectedToken => "Unexpected token"
  | missingToken kind => s!"Missing {kind}"
  | unencodable => "Source is not valid UTF-8 text: surrogates not allowed"
  | noOutput => "No output generated"
  | brokenRewrite why => "Rewritten source no longer parses: " ++ why.message
  | unreadable reason => "Failed to read file: " ++ reason
  | unwritable reason => "Failed to write file: " ++ reason

end Cause

/-- A cause, with the line and the column if it has a place in the file. -/
structure Failure where
  path : String
  cause : Cause
  location : Option (Nat × Nat) := none
deriving Repr, DecidableEq, Inhabited

/-- What is reported of a failure. -/
def Failure.report (f : Failure) : FailureReport where
  path := f.path
  kind := f.cause.kind
  message := f.cause.message
  line := f.location.map fun l => (l.1 : Int)
  column := f.location.map fun l => (l.2 : Int)

end ScriptScrub
