import ScriptScrub.Proofs.Syntax.Places

/-!
# Well-nested trees

In the tree of a text the children of a node lie inside it, one after the other
(`Node.WellNested`). So what lies below a place lies in its range (`Place.Below.range`), and of two
places of a tree either one lies below the other or their ranges are apart
(`Place.below_or_apart`).
-/

namespace ScriptScrub

namespace Node

/-- The children of a node lie inside it, one after the other. -/
structure Nests (n : Node) : Prop where
  ordered : n.start ≤ n.stop
  inside : ∀ c ∈ n.children, n.start ≤ c.start ∧ c.stop ≤ n.stop
  apart : n.children.Pairwise fun a b => a.stop ≤ b.start

/-- Every node of a tree has its children inside it, one after the other. -/
def WellNested (root : Node) : Prop := ∀ n ∈ root.preorder, n.Nests

instance (n : Node) : Decidable n.Nests :=
  decidable_of_iff (n.start ≤ n.stop ∧ (∀ c ∈ n.children, n.start ≤ c.start ∧ c.stop ≤ n.stop) ∧
    n.children.Pairwise fun a b => a.stop ≤ b.start)
    ⟨fun ⟨h₁, h₂, h₃⟩ => ⟨h₁, h₂, h₃⟩, fun ⟨h₁, h₂, h₃⟩ => ⟨h₁, h₂, h₃⟩⟩

instance (root : Node) : Decidable root.WellNested :=
  inferInstanceAs (Decidable (∀ n ∈ root.preorder, n.Nests))

/-- A tree lists its root. -/
theorem self_mem_preorder (n : Node) : n ∈ n.preorder := by
  rw [preorder_eq]
  exact List.mem_cons_self

/-- A tree lists what a child of its root lists. -/
theorem preorder_subset_of_mem {n c : Node} (hc : c ∈ n.children) : c.preorder ⊆ n.preorder := by
  intro m hm
  rw [preorder_eq, List.mem_cons, List.mem_flatMap]
  exact .inr ⟨c, hc, hm⟩

/-- What holds of all nodes of a tree holds of its root and of all nodes of the trees below. -/
theorem forall_mem_preorder {P : Node → Prop} {n : Node} :
    (∀ m ∈ n.preorder, P m) ↔ P n ∧ ∀ c ∈ n.children, ∀ m ∈ c.preorder, P m := by
  rw [preorder_eq, List.forall_mem_cons, List.forall_mem_flatMap]

/-- The root of a well-nested tree nests. -/
theorem WellNested.nests {n : Node} (h : n.WellNested) : n.Nests := h n n.self_mem_preorder

/-- The children of a well-nested tree are well-nested. -/
theorem WellNested.child {n c : Node} (h : n.WellNested) (hc : c ∈ n.children) : c.WellNested :=
  fun m hm => h m (preorder_subset_of_mem hc hm)

end Node

namespace Place

/-- The node at the place of a child is a child. -/
theorem node_mem_of_mem_children {p c : Place} (hc : c ∈ p.children) :
    c.node ∈ p.node.children := by
  obtain ⟨i, n, hn, rfl⟩ := mem_children_iff.1 hc
  exact List.mem_of_getElem? hn

/-- The tree below what lies below a well-nested place is well-nested. -/
theorem Below.wellNested {p q : Place} (h : p.Below q) (hp : p.node.WellNested) :
    q.node.WellNested := by
  induction h with
  | child hc => exact hp.child (node_mem_of_mem_children hc)
  | deeper _ hc ih => exact ih.child (node_mem_of_mem_children hc)

/-- The tree below a place of a well-nested tree is well-nested. -/
theorem wellNested_of_mem_all {root : Node} {p : Place} (hroot : root.WellNested)
    (hp : p ∈ all root) : p.node.WellNested := by
  rcases mem_all_iff.1 hp with rfl | h
  · exact hroot
  · exact h.wellNested hroot

/-- **What lies below a place lies in its range.** -/
theorem Below.range {p q : Place} (h : p.Below q) (hp : p.node.WellNested) :
    p.node.start ≤ q.node.start ∧ q.node.stop ≤ p.node.stop := by
  induction h with
  | child hc => exact hp.nests.inside _ (node_mem_of_mem_children hc)
  | deeper hq hc ih =>
      have hin := (hq.wellNested hp).nests.inside _ (node_mem_of_mem_children hc)
      exact ⟨Nat.le_trans ih.1 hin.1, Nat.le_trans hin.2 ih.2⟩

/-- What a place lists lies in its range. -/
theorem range_of_mem_preorder {p q : Place} (hp : p.node.WellNested) (h : q ∈ p.preorder) :
    p.node.start ≤ q.node.start ∧ q.node.stop ≤ p.node.stop := by
  rcases mem_preorder_iff.1 h with rfl | h
  · exact ⟨Nat.le_refl _, Nat.le_refl _⟩
  · exact h.range hp

/-- A place of a tree does not end before it begins, nor does it end behind the tree. -/
theorem range_of_mem_all {root : Node} {p : Place} (hroot : root.WellNested)
    (hp : p ∈ all root) : p.node.start ≤ p.node.stop ∧ p.node.stop ≤ root.stop :=
  ⟨(wellNested_of_mem_all hroot hp).nests.ordered,
    (range_of_mem_preorder (p := ⟨root, []⟩) hroot hp).2⟩

/-- The earlier of two children ends before the later one begins. -/
theorem pairwise_children {p : Place} (hp : p.node.WellNested) :
    p.children.Pairwise fun a b => a.node.stop ≤ b.node.start := by
  have := hp.nests.apart
  rw [← map_node_children, List.pairwise_map] at this
  exact this

/-- The ranges of two different children are apart. -/
theorem apart_of_mem_children {p c d : Place} (hp : p.node.WellNested) (hc : c ∈ p.children)
    (hd : d ∈ p.children) (hcd : c ≠ d) :
    c.node.stop ≤ d.node.start ∨ d.node.stop ≤ c.node.start := by
  have hpair := List.pairwise_iff_getElem.1 (pairwise_children hp)
  obtain ⟨i, hi, rfl⟩ := List.getElem_of_mem hc
  obtain ⟨j, hj, rfl⟩ := List.getElem_of_mem hd
  rcases Nat.lt_trichotomy i j with hij | rfl | hij
  · exact .inl (hpair i j hi hj hij)
  · exact absurd rfl hcd
  · exact .inr (hpair j i hj hi hij)

/-- **Two places of a tree** are the same, or one lies below the other, or their ranges are
apart. -/
theorem below_or_apart {r p q : Place} (hr : r.node.WellNested) (hp : p ∈ r.preorder)
    (hq : q ∈ r.preorder) :
    q = p ∨ p.Below q ∨ q.Below p ∨ q.node.stop ≤ p.node.start ∨ p.node.stop ≤ q.node.start := by
  induction r using Place.induct with
  | step r ih =>
    rcases mem_preorder_iff.1 hp with rfl | hp
    · exact (mem_preorder_iff.1 hq).imp_right .inl
    rcases mem_preorder_iff.1 hq with rfl | hq
    · exact .inr (.inr (.inl hp))
    obtain ⟨c, hc, hpc⟩ := below_iff_child.1 hp
    obtain ⟨d, hd, hqd⟩ := below_iff_child.1 hq
    rw [← mem_preorder_iff] at hpc hqd
    have hcw := hr.child (node_mem_of_mem_children hc)
    have hdw := hr.child (node_mem_of_mem_children hd)
    by_cases hcd : c = d
    · subst hcd
      exact ih c hc hcw hpc hqd
    have hpr := range_of_mem_preorder hcw hpc
    have hqr := range_of_mem_preorder hdw hqd
    rcases apart_of_mem_children hr hc hd hcd with h | h
    · exact .inr (.inr (.inr (.inr (by omega))))
    · exact .inr (.inr (.inr (.inl (by omega))))

end Place

end ScriptScrub
