import Mathlib.Data.List.Nodup
import ScriptScrub.Proofs.Scope.Declared
import ScriptScrub.Proofs.Scope.Lookup
import ScriptScrub.Script.Parse

/-!
# Questions to an index

An index is asked for bound names and for the names of nodes, in any order and as often as one
likes. Where no two nodes of a tree have the same key (`KeysDiffer`), what it answers is what would
be computed without it (`ask_eq_answer`): a name is bound exactly if a node above declares it, and
the names of a node are those that it declares, by its patterns (`Binds`), its statements
(`DeclaresIn`) or the variables that it hoists (`Hoists`).
-/

namespace ScriptScrub.Scope

/-- What an index is asked for. -/
inductive Query where
  /-- Is the name at the place bound? -/
  | bound (p : Place)
  /-- Which names does the node at the place declare? -/
  | names (p : Place)

/-- The place that is asked about. -/
def Query.place : Query → Place
  | bound p | names p => p

/-- What is answered. -/
inductive Answer where
  | bound (isBound : Bool)
  | names (declared : List String)
deriving Repr, DecidableEq

section
variable (source : Bytes)

/-- The answer of an index. -/
def Query.ask : Query → StateM Index Answer
  | bound p => Answer.bound <$> Index.isBound source p
  | names p => Answer.names <$> Index.names source p.node

/-- The answer without an index. -/
def Query.answer : Query → Answer
  | bound p => .bound (isBound source p)
  | names p => .names (declaredNames source p.node)

/-- The node declares the name in one of the forms that collecting looks at. -/
def IsCollected (n : Node) (x : String) : Prop :=
  ∃ form : Form, form.isSeen = true ∧ Declares source form n x

end

/-- No two nodes of the tree have the same range and kind. -/
def KeysDiffer (root : Node) : Prop := (root.preorder.map Key.of).Nodup

instance (root : Node) : Decidable (KeysDiffer root) := inferInstanceAs (Decidable (List.Nodup _))

section
variable {source : Bytes} {root : Node}

/-- Keys that differ tell nodes apart. -/
theorem KeysDiffer.keysTell (h : KeysDiffer root) : KeysTell source root := by
  intro a ha b hb hkey
  rw [List.inj_on_of_nodup_map h ha hb hkey]

/-- **One question** is answered as without an index, and the index stays sound. -/
theorem yields_ask (hkeys : KeysTell source root) {q : Query} (hq : q.place ∈ Place.all root) :
    Yields (Index.Sound source root) (q.ask source) (q.answer source) := by
  cases q with
  | bound p => exact (Index.yields_isBound hkeys hq).map _
  | names p => exact (Index.yields_names hkeys (Place.node_mem_of_mem_all hq)).map _

/-- **A name is bound** exactly if a node above it declares the name. -/
theorem isBound_iff_below {p : Place} (hp : p ∈ Place.all root) :
    isBound source p = true ↔
      ∃ a ∈ Place.all root, a.Below p ∧ IsCollected source a.node (p.node.text source) := by
  rw [isBound, List.any_eq_true]
  simp only [List.contains_iff_mem, mem_declaredNames_iff, Place.mem_ancestors_iff hp]
  constructor
  · rintro ⟨n, ⟨a, ha, hbelow, rfl⟩, hdeclares⟩
    exact ⟨a, ha, hbelow, hdeclares⟩
  · rintro ⟨a, ha, hbelow, hdeclares⟩
    exact ⟨a.node, ⟨a, ha, hbelow, rfl⟩, hdeclares⟩

/-- **Questions to one index.** However often and in whatever order an index is asked, it answers
what is answered without one. There a name is bound exactly if a node above declares it, the names
of a node are those that it declares, and the names of a pattern are those that it binds. -/
theorem ask_eq_answer (hkeys : KeysDiffer root) {queries : List Query}
    (hqueries : ∀ q ∈ queries, q.place ∈ Place.all root) :
    ((queries.mapM (Query.ask source)).run {}).1 = queries.map (Query.answer source) ∧
      (∀ p ∈ Place.all root, isBound source p = true ↔
        ∃ a ∈ Place.all root, a.Below p ∧ IsCollected source a.node (p.node.text source)) ∧
      (∀ p ∈ Place.all root, ∀ x, x ∈ declaredNames source p.node ↔ IsCollected source p.node x) ∧
      ∀ pattern x, x ∈ patternNames source pattern ↔ Binds source pattern x := by
  refine ⟨?_, fun p hp => isBound_iff_below hp, fun p _ x => mem_declaredNames_iff,
    fun pattern x => mem_patternNames_iff⟩
  have hall : Yields (Index.Sound source root) (queries.mapM (Query.ask source))
      (queries.map (Query.answer source)) :=
    .mapM fun q hq => yields_ask hkeys.keysTell (hqueries q hq)
  exact (hall {} Index.sound_empty).1

end

/-- An arrow function with a pattern that has a key, a default and a rest. -/
def patternSource : Bytes := Text.encode "f = (\x7bk: x = y, ...z\x7d) => x;\n"

/-- The tree of `patternSource`. -/
def patternTree : Node := (Script.grammar.parse "a.js" patternSource).toOption.getD default

/-- The place that a way down in `patternTree` leads to. -/
def patternPlace (way : List Nat) : Place := Place.follow ⟨patternTree, []⟩ way

/-- The function declares what its pattern binds, so the name in its body is bound, and the one in
the default is not. -/
theorem ask_eq_answer_pattern :
    ((List.mapM (Query.ask patternSource) [.bound (patternPlace [0, 0, 2, 2]),
      .names (patternPlace [0, 0, 2]), .bound (patternPlace [0, 0, 2, 0, 1, 1, 2, 2]),
      .bound (patternPlace [0, 0, 2, 2])]).run {}).1 =
        [.bound true, .names ["x", "z"], .bound false, .bound true] := by
  have hkeys : KeysDiffer patternTree := by decide +kernel
  have hmem : ∀ way, patternPlace way ∈ Place.all patternTree := fun way => by
    rw [Place.all_eq]
    exact Place.follow_mem_preorder ⟨patternTree, []⟩ way
  have hplaces : ∀ q ∈ [Query.bound (patternPlace [0, 0, 2, 2]), .names (patternPlace [0, 0, 2]),
      .bound (patternPlace [0, 0, 2, 0, 1, 1, 2, 2]), .bound (patternPlace [0, 0, 2, 2])],
      q.place ∈ Place.all patternTree := by
    simp [Query.place, hmem]
  rw [(ask_eq_answer hkeys hplaces).1]
  decide +kernel

end ScriptScrub.Scope
