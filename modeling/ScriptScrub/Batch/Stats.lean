import ScriptScrub.Failure

/-!
# Outcomes and counters

How a single file of a batch ended, and the counters that a batch keeps. Excluded files are passed
through: they count as processed and as skipped.
-/

namespace ScriptScrub.Batch

/-- How the processing of a file ended. -/
inductive Status where
  | skipped
  | processed
  | errored
deriving Repr, DecidableEq, Inhabited

namespace Status

/-- The name of a status. -/
def name : Status → String
  | skipped => "skipped"
  | processed => "processed"
  | errored => "errored"

/-- The status of a given name. -/
def ofName? (s : String) : Option Status := [skipped, processed, errored].find? (·.name == s)

end Status

/-- The counters of a batch. -/
structure Stats where
  total : Int := 0
  processed : Nat := 0
  errors : Nat := 0
  skipped : Nat := 0
  changed : Nat := 0
deriving Repr, DecidableEq, Inhabited

namespace Stats

/-- Counts one file; only a processed one can count as changed. -/
def record (s : Stats) (status : Status) (changed : Bool) : Stats :=
  match status with
  | .errored => { s with errors := s.errors + 1 }
  | .skipped => { s with processed := s.processed + 1, skipped := s.skipped + 1 }
  | .processed =>
    { s with processed := s.processed + 1, changed := s.changed + (if changed then 1 else 0) }

/-- The files that went through the sanitizer. -/
def rewritten (s : Stats) : Int := (s.processed : Int) - s.skipped

/-- Some file failed. -/
def hasErrors (s : Stats) : Bool := s.errors != 0

/-- The counters after each of a list of files. -/
def history (s : Stats) : List (Status × Bool) → List Stats
  | [] => []
  | o :: os => s.record o.1 o.2 :: history (s.record o.1 o.2) os

end Stats

end ScriptScrub.Batch
