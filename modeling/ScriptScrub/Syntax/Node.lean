import ScriptScrub.Text.Utf8

/-!
# Syntax trees

A node covers a range of bytes of its source and knows its kind and, if it has one, the field that
it fills in its parent. Trees that come from a broken source hold error nodes and missing nodes.
-/

namespace ScriptScrub

/-- A node of a syntax tree. -/
structure Node where
  kind : String
  start : Nat
  stop : Nat
  /-- Tokens that are written out in the grammar have no name. -/
  named : Bool := true
  /-- The grammar demands the node but the source does not have it. -/
  missing : Bool := false
  /-- The node counts as faulty whatever it holds. -/
  broken : Bool := false
  field : Option String := none
  children : List Node := []
deriving Repr, Inhabited

namespace Node

/-- The kind of a node that stands for text that the grammar cannot place. -/
def errorKind : String := "ERROR"

/-- The node itself stands for a fault of the source. -/
def isFault (n : Node) : Bool := n.kind == errorKind || n.missing

mutual

/-- The node or one below it is faulty. -/
def hasError : Node → Bool
  | ⟨kind, _, _, _, missing, broken, _, children⟩ =>
    broken || kind == errorKind || missing || anyHasError children

/-- One of the nodes is faulty. -/
def anyHasError : List Node → Bool
  | [] => false
  | n :: ns => hasError n || anyHasError ns

end

mutual

/-- The node and all nodes below it, parents before children, in the order of the source. -/
def preorder : Node → List Node
  | n@⟨_, _, _, _, _, _, _, children⟩ => n :: preorderAll children

/-- The nodes and all nodes below them. -/
def preorderAll : List Node → List Node
  | [] => []
  | n :: ns => preorder n ++ preorderAll ns

end

/-- **The listing of a node** is the node and then what its children list. -/
theorem preorder_eq (n : Node) : n.preorder = n :: n.children.flatMap preorder := by
  have among : ∀ ns : List Node, preorderAll ns = ns.flatMap preorder := by
    intro ns
    induction ns with
    | nil => rfl
    | cons n ns ih => rw [preorderAll, List.flatMap_cons, ih]
  obtain ⟨kind, start, stop, named, missing, broken, field, children⟩ := n
  rw [preorder, among]

/-- The first child that fills a field. -/
def child? (n : Node) (field : String) : Option Node :=
  n.children.find? fun c => c.field == some field

/-- The children that have a name. -/
def namedChildren (n : Node) : List Node := n.children.filter (·.named)

/-- The number of nodes in some trees. -/
def total (ns : List Node) : Nat := (ns.flatMap preorder).length

/-- A root counts, and the nodes below it, and those of the other trees. -/
theorem total_cons (n : Node) (ns : List Node) :
    total (n :: ns) = total n.children + 1 + total ns := by
  rw [total, List.flatMap_cons, preorder_eq, List.length_append, List.length_cons]
  rfl

/-- The nodes of some trees and of others. -/
theorem total_append (ms ns : List Node) : total (ms ++ ns) = total ms + total ns := by
  rw [total, List.flatMap_append, List.length_append]
  rfl

/-- Trees have as many nodes in any order. -/
theorem total_reverse (ns : List Node) : total ns.reverse = total ns :=
  ((List.reverse_perm ns).flatMap_right _).length_eq

/-- Leaving trees out leaves no more nodes. -/
theorem total_filter (keep : Node → Bool) (ns : List Node) : total (ns.filter keep) ≤ total ns := by
  induction ns with
  | nil => exact Nat.le_refl _
  | cons n ns ih =>
      rw [List.filter_cons]
      split
      · rw [total_cons, total_cons]
        omega
      · rw [total_cons]
        omega

/-- Behind a tree there are fewer nodes than with it. -/
theorem total_tail (n : Node) (ns : List Node) : total ns < total (n :: ns) := by
  rw [total_cons]
  omega

/-- Below a root there are fewer nodes than with it. -/
theorem total_children (n : Node) (ns : List Node) :
    total (n.children ++ ns) < total (n :: ns) := by
  rw [total_append, total_cons]
  omega

/-- Below a root there are fewer nodes than with it, if only children with a name are counted. -/
theorem total_namedChildren (n : Node) (ns : List Node) :
    total (n.namedChildren.reverse ++ ns) < total (n :: ns) := by
  have := total_filter (·.named) n.children
  rw [total_append, total_reverse, total_cons, namedChildren]
  omega

/-- The nodes that a walk with a stack comes to: the one on top of it, whose children take its
place, the first on top. -/
def walkStack : List Node → List Node
  | [] => []
  | n :: ns => n :: walkStack (n.children ++ ns)
termination_by ns => total ns
decreasing_by exact total_children n ns

/-- The nodes of a tree as a walk with a stack comes to them. -/
def walk (root : Node) : List Node := walkStack [root]

/-- The first node that stands for a fault. -/
def firstFault? (root : Node) : Option Node := root.walk.find? isFault

/-- The bytes that a node covers. -/
def bytes (source : Bytes) (n : Node) : Bytes := (source.take n.stop).drop n.start

/-- The text that a node covers. -/
def text (source : Bytes) (n : Node) : String := Text.decodeForgiving (n.bytes source)

/-- The line and the column at which a node begins, counted from one; columns count bytes. -/
def location (source : Bytes) (n : Node) : Nat × Nat :=
  let before := source.take n.start
  (before.count 0x0A + 1,
    n.start - before.length + (before.reverse.takeWhile (· != 0x0A)).length + 1)

end Node

end ScriptScrub
