import ScriptScrub.Sanitizer.Sanitize
import ScriptScrub.Batch.Run
import ScriptScrub.Script.Parse
import ScriptScrub.Glob.PatternList
import ScriptScrub.FileTree.Walk
import ScriptScrub.Watch.Project
import ScriptScrub.Config.Load
import ScriptScrub.Main
import ScriptScrub.Proofs.Sanitizer.Total
import ScriptScrub.Proofs.Sanitizer.Preserved
import ScriptScrub.Proofs.Sanitizer.Joining
import ScriptScrub.Proofs.Sanitizer.Bound
import ScriptScrub.Proofs.Batch.Processing
import ScriptScrub.Proofs.Batch.Accounting
import ScriptScrub.Proofs.FileTree.Entries
import ScriptScrub.Proofs.FileTree.Lookup
import ScriptScrub.Proofs.FileTree.Walk
import ScriptScrub.Proofs.Batch.Discovery
import ScriptScrub.Proofs.Batch.Protected
import ScriptScrub.Proofs.Batch.Isolation
import ScriptScrub.Proofs.Sanitizer.Idempotence
import ScriptScrub.Proofs.Build.Coalescing
import ScriptScrub.Proofs.Watch.Session
import ScriptScrub.Proofs.Watch.Threads
import ScriptScrub.Proofs.Watch.FirstScan
import ScriptScrub.Proofs.Glob.Reading
import ScriptScrub.Proofs.Glob.Below
import ScriptScrub.Proofs.FileTree.Resolve
import ScriptScrub.Proofs.Path.Matcher
import ScriptScrub.Proofs.Watch.Tracking
import ScriptScrub.Proofs.Watch.Pruning
import ScriptScrub.Proofs.Batch.DryRun
import ScriptScrub.Proofs.FileTree.Way
import ScriptScrub.Proofs.Batch.Ending
import ScriptScrub.Proofs.Config.Entries
import ScriptScrub.Proofs.Yaml.Tables
import ScriptScrub.Proofs.Config.Sections
import ScriptScrub.Proofs.Text.LetterCase
import ScriptScrub.Proofs.Config.Fields
import ScriptScrub.Proofs.Config.Precedence
import ScriptScrub.Proofs.Config.Ending
import ScriptScrub.Proofs.Sanitizer.Outermost
import ScriptScrub.Proofs.Edit.LineFeed
import ScriptScrub.Proofs.Edit.Neighbour
import ScriptScrub.Proofs.Edit.LineEnding
import ScriptScrub.Proofs.Edit.BlankLine
import ScriptScrub.Proofs.Edit.EmptiedLine
import ScriptScrub.Proofs.Sanitizer.Operand
import ScriptScrub.Proofs.Sanitizer.Target
import ScriptScrub.Proofs.Batch.NoOutput
import ScriptScrub.Proofs.Scope.Queries
import ScriptScrub.Proofs.Scope.Hoisting
import ScriptScrub.Proofs.Syntax.Faults
import ScriptScrub.Proofs.Batch.Selection
import ScriptScrub.Proofs.Batch.Pruning
import ScriptScrub.Proofs.Path.Dotfiles
import ScriptScrub.Proofs.Watch.Dotfiles
import ScriptScrub.Proofs.Glob.Tidy
import ScriptScrub.Proofs.Batch.Dialects
import ScriptScrub.Proofs.Path.Normal
import ScriptScrub.Proofs.Path.Confined
import ScriptScrub.Proofs.Watch.Starting
import ScriptScrub.Proofs.Config.Given
import ScriptScrub.Proofs.Config.EmptySections
import ScriptScrub.Proofs.Text.Markup
import ScriptScrub.Proofs.Batch.Report
