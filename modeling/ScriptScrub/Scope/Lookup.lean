import Std.Data.HashMap
import ScriptScrub.Syntax.Place
import ScriptScrub.Scope.Depth

/-!
# Looking names up

A name is bound at a place if a node above declares it. The declared names of a node are computed
once: an `Index` remembers them under the range and the kind of the node.
-/

namespace ScriptScrub.Scope

/-- The name at a place is declared by a node above it. -/
def isBound (source : Bytes) (p : Place) : Bool :=
  p.ancestors.any fun n => (declaredNames source n).contains (p.node.text source)

/-- What a node's declared names are remembered under. -/
structure Key where
  start : Nat
  stop : Nat
  kind : String
deriving Repr, DecidableEq, Hashable

/-- The key of a node. -/
def Key.of (n : Node) : Key := ⟨n.start, n.stop, n.kind⟩

/-- The names that were computed so far. -/
structure Index where
  known : Std.HashMap Key (List String) := {}
  /-- The calls that were open at once while they were computed. -/
  depth : Nat := 0

namespace Index

/-- The names that a node declares, remembered ones if its key is known. -/
def names (source : Bytes) (n : Node) : StateM Index (List String) := fun index =>
  match index.known[Key.of n]? with
  | some names => (names, index)
  | none =>
    let names := declaredNames source n
    (names, {
      known := index.known.insert (Key.of n) names
      depth := max index.depth (declaredDepth source n) })

/-- One of the nodes declares a name; those after the first that does are not looked at. -/
def anyDeclares (source : Bytes) (name : String) : List Node → StateM Index Bool
  | [] => pure false
  | n :: ns => do
    if (← names source n).contains name then pure true else anyDeclares source name ns

/-- The name at a place is declared by a node above it, as far as the index knows. -/
def isBound (source : Bytes) (p : Place) : StateM Index Bool :=
  anyDeclares source (p.node.text source) p.ancestors

end Index

end ScriptScrub.Scope
