import ScriptScrub.Batch.Stats
import ScriptScrub.Log

/-!
# Notices of a batch

What a batch tells about its work, and the words for it.
-/

namespace ScriptScrub.Batch

/-- Something that a batch tells. -/
inductive Notice where
  /-- How many files were found below a root. -/
  | discovered (count : Nat) (root : String)
  /-- The work on the files begins. -/
  | started (count : Nat) (root : String) (dryRun : Bool)
  /-- A file is left as it is. -/
  | excluded (path : String)
  /-- A file was sanitized. -/
  | processed (path : String) (calls comments : Nat)
  /-- A file could not be sanitized. -/
  | failed (path : String) (failure : Failure)
  /-- All files are done. -/
  | finished (stats : Stats)
deriving Repr, DecidableEq

/-- A notice in words. A file of which nothing would be left, or no script, is worth a warning; all
other failures are errors. -/
def Notice.line : Notice → LogLine
  | discovered count root => ⟨.debug, s!"Discovered {count} files under {root}"⟩
  | started count root dryRun =>
    ⟨.info, s!"Sanitizing {count} files under {root}" ++ (if dryRun then " (dry run)" else "")⟩
  | excluded path => ⟨.debug, s!"Skipping excluded file: {path}"⟩
  | processed path calls comments =>
    ⟨.debug, s!"Processed {path}: {calls} calls, {comments} comments removed"⟩
  | failed path failure =>
    let told := failure.report.describe
    if failure.cause.kind = .serialization then
      ⟨.warning, s!"No output generated for: {path} ({told})"⟩
    else ⟨.error, s!"Error processing file {path}: {told}"⟩
  | finished stats =>
    ⟨.info, s!"Done: {stats.processed}/{stats.total} processed, {stats.changed} changed, " ++
      s!"{stats.skipped} skipped, {stats.errors} errors"⟩

end ScriptScrub.Batch
