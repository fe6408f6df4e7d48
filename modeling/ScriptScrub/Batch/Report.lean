import ScriptScrub.Batch.Run
import ScriptScrub.Text.Markup

/-!
# The report of a batch

A table with the counters of a batch, and below it a line for every file that failed. The lines are
marked up, and so are the paths and messages in them.
-/

namespace ScriptScrub.Batch

/-- A text in the middle of a line of some width. -/
def centred (width : Nat) (s : String) : String :=
  let free := width - s.length
  "".pushn ' ' (free / 2) ++ s ++ "".pushn ' ' (free - free / 2)

/-- A text at the start of a cell of some width. -/
def leftCell (width : Nat) (s : String) : String := s.pushn ' ' (width - s.length)

/-- A text at the end of a cell of some width. -/
def rightCell (width : Nat) (s : String) : String := "".pushn ' ' (width - s.length) ++ s

/-- The title and the heads of a table with two columns, and its rows. -/
structure Table where
  title : String
  heads : String × String
  rows : List (String × String)
deriving Repr, DecidableEq

namespace Table

/-- The widths of the columns. -/
def widths (t : Table) : Nat × Nat :=
  (t.heads :: t.rows).foldl (fun (a, b) r => (max a r.1.length, max b r.2.length)) (0, 0)

/-- A line between rows. -/
def rule (t : Table) (left middle right fill : Char) : String :=
  let (a, b) := t.widths
  String.ofList (left :: List.replicate (a + 2) fill ++ middle :: List.replicate (b + 2) fill ++
    [right])

/-- A row between lines of some kind. -/
def row (t : Table) (line : String) (r : String × String) : String :=
  let (a, b) := t.widths
  s!"{line} {leftCell a r.1} {line} {rightCell b r.2} {line}"

/-- The lines of a table. -/
def lines (t : Table) : List String :=
  let (a, b) := t.widths
  [centred (a + b + 7) t.title, t.rule '┏' '┳' '┓' '━', t.row "┃" t.heads,
    t.rule '┡' '╇' '┩' '━'] ++
    t.rows.map (t.row "│") ++ [t.rule '└' '┴' '┘' '─']

end Table

/-- The table of the counters of a batch. -/
def summary (stats : Stats) (dryRun : Bool) : Table where
  title := if dryRun then "Sanitize summary (dry run)" else "Sanitize summary"
  heads := ("Files", "Count")
  rows := [("Total", toString stats.total), ("Processed", toString stats.processed),
    ("Changed", toString stats.changed), ("Skipped (excluded)", toString stats.skipped),
    ("Errors", toString stats.errors)]

/-- What a report knows of a file. -/
structure FileReport where
  path : String
  status : Status
  error : Option FailureReport := none
deriving Repr, DecidableEq

/-- What a report knows of the file of an outcome. -/
def Outcome.fileReport (o : Outcome) : FileReport where
  path := o.path
  status := o.status
  error := o.failure?.map (·.report)

/-- What is told of a file that failed: its path and what went wrong. -/
def FileReport.failure? (r : FileReport) : Option String :=
  match r.status, r.error with
  | .errored, some e => some s!"{r.path}: {e.describe}"
  | _, _ => none

/-- The marked-up line about a file that failed. -/
def failureLine (failure : String) : String := s!"[red]x[/red] {failure}"

/-- Lines one below the other. -/
def printed (lines : List String) : String := String.join (lines.map (· ++ "\n"))

/-- The lines about some failures, up to one that cannot be shown. -/
def failureLines (pictures : Text.Pictures) : List String → List String × Option Text.MarkupFault
  | [] => ([], none)
  | failure :: failures =>
    match Text.plainLine (failureLine failure) pictures with
    | .error fault => ([], some fault)
    | .ok line =>
      let (rest, fault) := failureLines pictures failures
      (line :: rest, fault)

/-- The report of a batch on a console with some pictures, and why it breaks off, if it does. -/
def report (stats : Stats) (files : List FileReport) (dryRun : Bool)
    (pictures : Text.Pictures := fun _ => none) : String × Option Text.MarkupFault :=
  let (lines, fault) := failureLines pictures (files.filterMap FileReport.failure?)
  (printed ((summary stats dryRun).lines ++ lines), fault)

end ScriptScrub.Batch
