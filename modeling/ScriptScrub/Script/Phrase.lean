import ScriptScrub.Script.LineEnd
import ScriptScrub.Syntax.Node

/-!
# Phrases

A phrase reads a piece of a script from a position on and gives the nodes that it consists of, or
gives nothing if the script does not continue with such a piece there. Rules of the grammar are
built from phrases by sequence, choice and repetition. The position is always the end of the last
token; every token passes over the white space and the comments before it.

Nodes that are being read count characters; they are moved to bytes when the whole script is read.
-/

namespace ScriptScrub.Script

/-- Reads from a position on. -/
abbrev Reader (α : Type) := Input → Nat → Option (α × Nat)

/-- Reads nodes. -/
abbrev Phrase := Reader (List Node)

namespace Reader

/-- Reads nothing. -/
def pure {α : Type} (a : α) : Reader α := fun _ i => some (a, i)

/-- Never reads anything. -/
def fail {α : Type} : Reader α := fun _ _ => none

/-- Reads one thing after the other. -/
def bind {α β : Type} (r : Reader α) (f : α → Reader β) : Reader β := fun input i =>
  match r input i with
  | some (a, j) => f a input j
  | none => none

instance : Monad Reader where
  pure := Reader.pure
  bind := Reader.bind

/-- Reads the second where the first cannot be read. -/
def orElse {α : Type} (r : Reader α) (s : Unit → Reader α) : Reader α := fun input i =>
  match r input i with
  | some result => some result
  | none => s () input i

instance {α : Type} : OrElse (Reader α) where
  orElse := Reader.orElse

/-- The script as a whole. -/
def input : Reader Input := fun input i => some (input, i)

/-- The position. -/
def position : Reader Nat := fun _ i => some (i, i)

/-- Reads something, or nothing if it is not there. -/
def option {α : Type} (r : Reader α) : Reader (Option α) := fun input i =>
  match r input i with
  | some (a, j) => some (some a, j)
  | none => some (none, i)

/-- Reads something as long as it is there and not empty, at most `n` times. -/
def upTo {α : Type} (r : Reader α) : Nat → Reader (List α)
  | 0, _, i => some ([], i)
  | n + 1, input, i =>
    match r input i with
    | some (a, j) =>
      if j ≤ i then some ([], i)
      else (upTo r n input j).map fun (as, k) => (a :: as, k)
    | none => some ([], i)

/-- Improves on what was read as long as that can be done, at most `n` times. -/
def iterate {α : Type} (step : α → Reader α) : Nat → α → Reader α
  | 0, a, _, i => some (a, i)
  | n + 1, a, input, i =>
    match step a input i with
    | some (b, j) => if j ≤ i then some (a, i) else iterate step n b input j
    | none => some (a, i)

/-- Improves on what was read as long as that can be done. -/
def grow {α : Type} (a : α) (step : α → Reader α) : Reader α := fun input i =>
  iterate step (input.size + 1 - i) a input i

end Reader

namespace Phrase

/-- One phrase after the other. -/
def seq : List Phrase → Phrase
  | [] => Reader.pure []
  | p :: ps => Reader.bind p fun a => Reader.bind (seq ps) fun b => Reader.pure (a ++ b)

/-- The first of the phrases that can be read. -/
def choice : List Phrase → Phrase
  | [] => Reader.fail
  | p :: ps => Reader.orElse p fun _ => choice ps

/-- A phrase that may be left out. -/
def maybe (p : Phrase) : Phrase := Reader.orElse p fun _ => Reader.pure []

/-- A phrase any number of times. -/
def many (p : Phrase) : Phrase := fun input i =>
  (Reader.upTo p (input.size + 1 - i) input i).map fun (ns, j) => (ns.flatten, j)

/-- A phrase at least once, separated by another. -/
def separated (separator p : Phrase) : Phrase := seq [p, many (seq [separator, p])]

/-- A phrase that may be left out, in front of another. Where the other cannot be read after it, it
counts as left out. -/
def before (p rest : Phrase) : Phrase := Reader.orElse (seq [p, rest]) fun _ => rest

/-- Reads nothing, provided that the phrase could be read here. -/
def ahead (p : Phrase) : Phrase := fun input i =>
  match p input i with
  | some _ => some ([], i)
  | none => none

/-- Reads nothing, provided that the phrase could not be read here. -/
def notAhead (p : Phrase) : Phrase := fun input i =>
  match p input i with
  | some _ => none
  | none => some ([], i)

/-- Gathers nodes under a new one, which reaches from the first of them to the position. -/
def gather (kind : String) (children : List Node) : Phrase := fun _ i =>
  let start := (children.head?.map (·.start)).getD i
  some ([{ kind := kind, start := start, stop := i, children := children }], i)

/-- A node that consists of the phrases one after the other. -/
def node (kind : String) (parts : List Phrase) : Phrase := Reader.bind (seq parts) (gather kind)

/-- A node that begins with nodes read before. -/
def nodeAfter (kind : String) (first : List Node) (parts : List Phrase) : Phrase :=
  Reader.bind (seq parts) fun rest => gather kind (first ++ rest)

/-- The nodes of a phrase fill a field. -/
def field (name : String) (p : Phrase) : Phrase :=
  Reader.bind p fun ns => Reader.pure (ns.map fun n => { n with field := some name })

/-- The nodes of a phrase are of a kind of their own. -/
def renamed (kind : String) (p : Phrase) : Phrase :=
  Reader.bind p fun ns => Reader.pure (ns.map fun n => { n with kind := kind, named := true })

/-- A leaf between two positions. -/
def leaf (kind : String) (named : Bool) (i j : Nat) : Node :=
  { kind := kind, start := i, stop := j, named := named }

/-- A token, whose end is found from its start. -/
def token (kind : String) (named : Bool) (end? : Input → Nat → Option Nat) : Phrase :=
  fun input i =>
    let start := input.skipTrivia i
    (end? input start).map fun stop => ([leaf kind named start stop], stop)

/-- A token that nothing may come before. -/
def immediate (kind : String) (named : Bool) (end? : Input → Nat → Option Nat) : Phrase :=
  fun input i => (end? input i).map fun stop => ([leaf kind named i stop], stop)

end Phrase

end ScriptScrub.Script
