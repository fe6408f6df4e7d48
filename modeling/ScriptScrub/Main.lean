import ScriptScrub.CommandLine.Program
import ScriptScrub.Script.Parse
import ScriptScrub.Watch.Project

/-!
# The command line

Reads the files that a command line is about, runs the program on them and writes those that it has
changed. While a folder is watched the system speaks on the standard input: a line such as
`modified lib/a.js` is a signal about a file, and `ended 0 1` says that the first build is over with
code one. The commands of builds are printed as they are due.
-/

open ScriptScrub

namespace ScriptScrub.Main

/-- The place of a path seen from a folder. -/
def placeOf (here : List String) (path : String) : List String :=
  Path.follow (if Path.isAbsolute path then [] else here) (Path.parts path)

/-- A link to what a path leads to, or to nothing. -/
def linkAt (path : String) : IO String := do
  try return (← IO.FS.realPath path).toString catch _ => return "\x00"

/-- Adds what is below a folder to the files. -/
partial def addFolder (files : FileTree) (folder : String) : IO FileTree := do
  let mut files := files.makeFolder (Path.parts folder)
  for entry in ← (← IO.FS.realPath folder).readDir do
    let path := entry.path.toString
    match (← entry.path.symlinkMetadata).type with
    | .dir => files ← addFolder files path
    | .file =>
      files := files.put (Path.parts path) (.file (← IO.FS.readBinFile path).toList)
    | .symlink => files := files.put (Path.parts path) (.link (← linkAt path))
    | .other => pure ()
  return files

/-- Adds what a path leads to, if it leads to anything. -/
def addPath (files : FileTree) (here : List String) (path : String) : IO FileTree := do
  try
    let real ← IO.FS.realPath path
    let place := placeOf here path
    let reached := Path.parts real.toString
    let files := if place = reached then files else files.put place (.link real.toString)
    match (← real.metadata).type with
    | .dir => addFolder files real.toString
    | _ => return files.put reached (.file (← IO.FS.readBinFile real).toList)
  catch _ => return files

/-- The variables of the environment that the program knows. -/
def knownVariables : IO Config.Environment := do
  let names := Config.knownFields.flatMap fun (s, fields) =>
    fields.map fun (f, _) => Config.variableStart ++ s.toUpper ++ "__" ++ f.toUpper
  let found ← (names ++ ["HOME"]).mapM fun name => return (name, ← IO.getEnv name)
  return found.filterMap fun (name, value) => value.map fun v => (name, v)

/-- Writes the files that are not as they were. -/
def writeChanges (before after : FileTree) : IO Unit := do
  let old := before.contents []
  for (path, content) in after.contents [] do
    if old.lookup path != some content then
      IO.FS.writeBinFile ("/" ++ path) ⟨content.toArray⟩

/-- Tells what a watched project tells, but for what is less important than `threshold`, and prints
the commands that are due. -/
def report (threshold : Level) (before after : Watch.Project) (told : List Watch.Notice) :
    IO Unit := do
  for l in told.filterMap (·.line?) do
    if threshold.rank ≤ l.level.rank then IO.eprintln s!"{l.level.name} {l.text}"
  let known := before.watcher.builds.processes.commands.length
  for c in after.watcher.builds.processes.commands.drop known do
    IO.println (" ".intercalate c.words)

/-- What a line of the standard input does to a watched project. -/
def takeLine (here : List String) (p : Watch.Project) (line : String) :
    Watch.Project × List Watch.Notice :=
  let signal (kind : Watch.SignalKind) (source target : String) :=
    p.report { kind, source := some (Path.absolute (placeOf here source)),
               target := some (Path.absolute (placeOf here target)) }
  match (line.trimAscii.toString.splitOn " ") with
  | ["created", path] => signal .created path ""
  | ["modified", path] => signal .modified path ""
  | ["deleted", path] => signal .deleted path ""
  | ["moved", path, target] => signal .moved path target
  | ["ended", k, code] =>
    let builds := (p.watcher.builds.finish (k.toNat?.getD 0) (code.toInt?.getD 1)).1
    ({ p with watcher := { p.watcher with builds } }, [])
  | _ => (p, [])

/-- Watches a project until the standard input ends. -/
partial def watchOn (threshold : Level) (here : List String) (p : Watch.Project) : IO Unit := do
  let line ← (← IO.getStdin).getLine
  let (q, told) := if line.isEmpty then p.requestStop else takeLine here p line
  let (next, more) := q.settle
  report threshold p next (told ++ more)
  unless line.isEmpty do watchOn threshold here next

/-- Watches a folder. -/
def watch (threshold : Level) (settings : Config.WatchSettings) (here : List String)
    (files : FileTree) (root : String) : IO UInt32 := do
  match files.resolve here root with
  | .error l =>
    IO.eprintln l.message
    return 1
  | .ok place =>
    match Watch.Project.make settings place files {} with
    | .error e =>
      IO.eprintln e.message
      return 1
    | .ok p =>
      let (q, told) := p.run
      let (next, more) := q.settle
      report threshold p next (told ++ more)
      watchOn threshold here next
      return 0

end ScriptScrub.Main

/-- The program. -/
def main (args : List String) : IO UInt32 := do
  let here := Path.parts (← IO.currentDir).toString
  let home := Path.parts ((← IO.getEnv "HOME").getD "/")
  let mut files ← Main.addPath {} [] (Path.absolute here)
  files ← Main.addPath files [] (Path.absolute (home ++ Config.homeDocument))
  for arg in args do files ← Main.addPath files here arg
  let r := CommandLine.run Script.grammar ⟨files, here, home, ← Main.knownVariables⟩ args
  Main.writeChanges files r.files
  IO.print r.printed
  r.messages.forM IO.eprintln
  match r.ending with
  | .uncaught e =>
    IO.eprintln e.message
    return r.ending.exitCode
  | .watch settings root => Main.watch r.threshold settings here files root
  | e => return e.exitCode
