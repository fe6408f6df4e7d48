import ScriptScrub.Config.Check
import ScriptScrub.Path.Matcher

/-!
# Watch events

What a watch session is told: that a file is new, has changed or is gone, that the first scan is
over, or that something went wrong. Such events come from the signals of the file system, which
name paths in any form; a signal about a path that is not watched brings no event.
-/

namespace ScriptScrub.Watch

/-- The kinds of events. -/
inductive EventKind where
  | add
  | change
  | unlink
  | ready
  | error
deriving Repr, DecidableEq, Inhabited

namespace EventKind

/-- The name of a kind. -/
def name : EventKind → String
  | add => "add"
  | change => "change"
  | unlink => "unlink"
  | ready => "ready"
  | error => "error"

/-- The kind of a given name. -/
def ofName? (s : String) : Option EventKind :=
  [add, change, unlink, ready, error].find? (·.name == s)

end EventKind

/-- An event. The path is seen from the root that is watched; a message comes with errors. -/
structure Event where
  kind : EventKind
  path : Option String := none
  message : Option String := none
deriving Repr, DecidableEq, Inhabited

/-- Reads an event from the entries of a table. -/
def Event.read (es : Config.Entries) : Config.Checked Event :=
  open Config in
  Checked.ap (Checked.ap (Checked.ap (.ok Event.mk)
    (es.required "kind" (Value.asChoice EventKind.ofName?)))
    (es.optional "path" (Value.asOptional Value.asText) none))
    (es.optional "message" (Value.asOptional Value.asText) none)

/-- What the file system reports about a path. Opening and closing files is of no interest. -/
inductive SignalKind where
  | created
  | modified
  | deleted
  | moved
  | other
deriving Repr, DecidableEq, Inhabited

/-- A signal of the file system. A path may be missing where there should be one. -/
structure Signal where
  kind : SignalKind
  source : Option String
  target : Option String := some ""
  isDirectory : Bool := false
deriving Repr, DecidableEq, Inhabited

/-- Why a signal cannot be understood. -/
inductive SignalFault where
  | noPath
  | loop (l : LinkLoop)
deriving Repr, DecidableEq

/-- The sentence about a fault. -/
def SignalFault.message : SignalFault → String
  | noPath => "expected str, bytes or os.PathLike object, not NoneType"
  | loop l => l.message

/-- The event of some kind about a path, if the path is watched. -/
def eventAt (files : FileTree) (m : Path.Matcher) (kind : EventKind) :
    Option String → Except SignalFault (List Event)
  | none => .error .noPath
  | some path =>
    match m.accepted? files path false with
    | .error l => .error (.loop l)
    | .ok seen => .ok (seen.toList.map fun p => { kind, path := some p })

/-- The events that a signal brings: a file that moves is gone in one place and new in another, and
directories bring none. -/
def Signal.events (files : FileTree) (m : Path.Matcher) (s : Signal) :
    Except SignalFault (List Event) :=
  if s.isDirectory then .ok []
  else match s.kind with
    | .created => eventAt files m .add s.source
    | .modified => eventAt files m .change s.source
    | .deleted => eventAt files m .unlink s.source
    | .moved => do
      let gone ← eventAt files m .unlink s.source
      return gone ++ (← eventAt files m .add s.target)
    | .other => .ok []

end ScriptScrub.Watch
