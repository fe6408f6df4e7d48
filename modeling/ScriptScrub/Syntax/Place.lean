import ScriptScrub.Syntax.Node

/-!
# Places in a tree

A node does not know its parent. A `Place` is a node together with the way up to the root, so two
equal nodes at different places are told apart.
-/

namespace ScriptScrub

/-- A node and the nodes above it, the nearest first, each with the position of the child that the
way down takes. -/
structure Place where
  node : Node
  above : List (Node × Nat) := []
deriving Inhabited

namespace Place

/-- The kind of the node at a place. -/
abbrev kind (p : Place) : String := p.node.kind

/-- The node above and the position of this one among its children. -/
def parent? (p : Place) : Option (Node × Nat) := p.above.head?

/-- The place of a child. -/
def down (p : Place) (index : Nat) (child : Node) : Place := ⟨child, (p.node, index) :: p.above⟩

/-- The places of the children. -/
def children (p : Place) : List Place := p.node.children.mapIdx p.down

/-- The places of the children that have a name. -/
def namedChildren (p : Place) : List Place := p.children.filter (·.node.named)

/-- The place of the first child that fills a field. -/
def child? (p : Place) (field : String) : Option Place :=
  p.children.find? fun c => c.node.field == some field

/-- The node at this place is the one that fills a field of its parent. -/
def fills (p : Place) (field : String) : Bool :=
  match p.above with
  | [] => false
  | (parent, index) :: _ =>
    parent.children.findIdx? (fun c => c.field == some field) == some index

/-- The nodes above, the nearest first. -/
def ancestors (p : Place) : List Node := p.above.map (·.1)

/-- The nodes at the places of the children are the children. -/
theorem map_node_children (p : Place) : p.children.map (·.node) = p.node.children := by
  refine List.ext_getElem? fun i => ?_
  rw [children, List.getElem?_map, List.getElem?_mapIdx, Option.map_map]
  exact Option.map_id'

/-- The number of nodes at some places and below them. -/
def total (ps : List Place) : Nat := (ps.flatMap (·.node.preorder)).length

/-- Places count as the trees at them. -/
theorem total_eq (ps : List Place) : total ps = Node.total (ps.map (·.node)) := by
  rw [total, Node.total, List.flatMap_map]

/-- Below a place there are fewer nodes than with it. -/
theorem total_children (p : Place) (ps : List Place) :
    total (p.children ++ ps) < total (p :: ps) := by
  rw [total_eq, total_eq, List.map_append, map_node_children]
  exact Node.total_children p.node _

/-- Behind a place there are fewer nodes than with it. -/
theorem total_tail (p : Place) (ps : List Place) : total ps < total (p :: ps) := by
  rw [total_eq, total_eq]
  exact Node.total_tail p.node _

mutual

/-- The places of a node and of all nodes below it, parents before children. -/
def preorderFrom (above : List (Node × Nat)) : Node → List Place
  | n@⟨_, _, _, _, _, _, _, children⟩ => ⟨n, above⟩ :: preorderAmong n above 0 children

/-- The places of the children of `parent` from the position `index` on, and of all nodes below. -/
def preorderAmong (parent : Node) (above : List (Node × Nat)) (index : Nat) :
    List Node → List Place
  | [] => []
  | n :: ns =>
    preorderFrom ((parent, index) :: above) n ++ preorderAmong parent above (index + 1) ns

end

/-- Every place of a tree, parents before children. -/
def all (root : Node) : List Place := preorderFrom [] root

end Place

end ScriptScrub
