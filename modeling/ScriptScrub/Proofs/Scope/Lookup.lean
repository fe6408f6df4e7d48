import ScriptScrub.Proofs.Stateful
import ScriptScrub.Proofs.Syntax.Places
import ScriptScrub.Scope.Lookup

/-!
# Remembered names

The index remembers the names of a node under the node's range and kind. As long as these tell the
nodes of a tree apart by the names that they declare (`KeysTell`), what it remembers is what it
would compute (`Index.Sound`), so looking a name up in it answers what looking the name up afresh
answers (`Index.yields_isBound`). In any tree it forgets nothing, so what it has answered it answers
again (`Index.recalls_isBound`).
-/

namespace ScriptScrub.Scope

/-- Nodes of one key declare the same names. -/
def KeysTell (source : Bytes) (root : Node) : Prop :=
  ∀ a ∈ root.preorder, ∀ b ∈ root.preorder, Key.of a = Key.of b →
    declaredNames source a = declaredNames source b

instance (source : Bytes) (root : Node) : Decidable (KeysTell source root) :=
  inferInstanceAs (Decidable (∀ a ∈ root.preorder, ∀ b ∈ root.preorder, Key.of a = Key.of b →
    declaredNames source a = declaredNames source b))

namespace Index

/-- What the index remembers under the key of a node of the tree is what the node declares. -/
def Sound (source : Bytes) (root : Node) (index : Index) : Prop :=
  ∀ n ∈ root.preorder, ∀ names, index.known[Key.of n]? = some names → names = declaredNames source n

section
variable {source : Bytes} {root : Node}

/-- An index that remembers nothing is sound. -/
theorem sound_empty : Sound source root {} := by
  intro n _ names h
  simp at h

/-- The index yields the names that a node declares. -/
theorem yields_names (hkeys : KeysTell source root) {n : Node} (hn : n ∈ root.preorder) :
    Yields (Sound source root) (names source n) (declaredNames source n) := by
  intro index hindex
  rw [StateT.run, names]
  split
  · next names hknown => exact ⟨hindex n hn names hknown, hindex⟩
  · refine ⟨rfl, fun m hm names hknown => ?_⟩
    rw [Std.HashMap.getElem?_insert] at hknown
    split at hknown
    · next hkey =>
      cases hknown
      exact hkeys n hn m hm (eq_of_beq hkey)
    · exact hindex m hm names hknown

/-- The index yields whether one of some nodes declares a name. -/
theorem yields_anyDeclares (hkeys : KeysTell source root) (name : String) {ns : List Node}
    (hns : ∀ n ∈ ns, n ∈ root.preorder) :
    Yields (Sound source root) (anyDeclares source name ns)
      (ns.any fun n => (declaredNames source n).contains name) := by
  induction ns with
  | nil => exact .pure false
  | cons n ns ih =>
      rw [anyDeclares, List.any_cons]
      refine .bind (yields_names hkeys (hns n List.mem_cons_self)) ?_
      cases (declaredNames source n).contains name with
      | true => exact .pure true
      | false => exact ih fun m hm => hns m (List.mem_cons_of_mem _ hm)

/-- **The index only remembers**: it yields whether a name is declared above a place. -/
theorem yields_isBound (hkeys : KeysTell source root) {p : Place} (hp : p ∈ Place.all root) :
    Yields (Sound source root) (isBound source p) (Scope.isBound source p) :=
  yields_anyDeclares hkeys _ fun _ hn => Place.mem_preorder_of_mem_ancestors hp hn

end

/-- An index is below all those that remember what it does. -/
instance : Preorder Index where
  le index more := ∀ (key : Key) (names : List String),
    index.known[key]? = some names → more.known[key]? = some names
  le_refl _ _ _ h := h
  le_trans _ _ _ h h' key names hknown := h' key names (h key names hknown)

/-- The names that are remembered for a node are found. -/
theorem run_names_of_known (source : Bytes) {n : Node} {index : Index} {known : List String}
    (h : index.known[Key.of n]? = some known) : (names source n).run index = (known, index) := by
  simp only [StateT.run, names, h]

/-- Names that are not remembered are collected, which may take a deeper stack. -/
theorem run_names_of_unknown (source : Bytes) {n : Node} {index : Index}
    (h : index.known[Key.of n]? = none) :
    (names source n).run index = (declaredNames source n,
      { known := index.known.insert (Key.of n) (declaredNames source n)
        depth := max index.depth (declaredDepth source n) }) := by
  simp only [StateT.run, names, h]

/-- The names of a node are remembered. -/
theorem recalls_names (source : Bytes) (n : Node) : Recalls (names source n) := by
  intro index
  cases hn : index.known[Key.of n]? with
  | some known =>
      rw [run_names_of_known source hn]
      exact ⟨le_refl index, fun more hmore => run_names_of_known source (hmore _ _ hn)⟩
  | none =>
      rw [run_names_of_unknown source hn]
      refine ⟨fun key known hkey => ?_, fun more hmore => run_names_of_known source (hmore _ _ ?_)⟩
      · have hother : (Key.of n == key) = false := beq_eq_false_iff_ne.2 fun h => by
          rw [← h, hn] at hkey
          cases hkey
        rw [Std.HashMap.getElem?_insert, hother]
        exact hkey
      · exact Std.HashMap.getElem?_insert_self

/-- What was looked up in some nodes is remembered. -/
theorem recalls_anyDeclares (source : Bytes) (name : String) (ns : List Node) :
    Recalls (anyDeclares source name ns) := by
  induction ns with
  | nil => exact .pure false
  | cons n ns ih =>
      rw [anyDeclares]
      refine (recalls_names source n).bind fun names => ?_
      split
      · exact .pure true
      · exact ih

/-- **The index answers the same again** when a name is looked up once more. -/
theorem recalls_isBound (source : Bytes) (p : Place) : Recalls (isBound source p) :=
  recalls_anyDeclares source _ _

end Index

end ScriptScrub.Scope
