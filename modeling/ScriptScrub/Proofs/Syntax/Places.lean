import Mathlib.Data.List.Nodup
import ScriptScrub.Syntax.Place

/-!
# The places of a tree

Two places of one tree may hold equal nodes, so a tree is walked by its places. `Place.Below p q`
says that the place `q` lies properly below `p`; the places of a tree are its root and the places
below it (`mem_all_iff`), each of them once (`nodup_preorder`), and the listing of a tree obeys one
equation (`preorder_eq`): a place, then what the places of its children list. `Place.induct` is the
induction that goes with it.
-/

namespace ScriptScrub

/-! ## Induction -/

/-- Induction over a node from its children to itself. -/
theorem Node.induct {P : Node → Prop} (step : ∀ n, (∀ c ∈ n.children, P c) → P n) (n : Node) :
    P n :=
  step n fun c _ => Node.induct step c
termination_by n
decreasing_by
  rename_i hc
  have := List.sizeOf_lt_of_mem hc
  cases n
  simp only [Node.mk.sizeOf_spec] at this ⊢
  omega

namespace Place

/-- A place that is the place of a child. -/
theorem mem_children_iff {p q : Place} :
    q ∈ p.children ↔ ∃ i c, p.node.children[i]? = some c ∧ q = p.down i c := by
  rw [children, List.mem_mapIdx]
  constructor
  · rintro ⟨i, hi, rfl⟩
    exact ⟨i, _, List.getElem?_eq_getElem hi, rfl⟩
  · rintro ⟨i, c, hc, rfl⟩
    obtain ⟨hi, rfl⟩ := List.getElem?_eq_some_iff.1 hc
    exact ⟨i, hi, rfl⟩

/-- A child that fills a field is the child that is found for the field. -/
theorem child?_eq_some_of_fills {p c : Place} {field : String} (hc : c ∈ p.children)
    (h : c.fills field = true) : p.child? field = some c := by
  obtain ⟨i, n, hn, rfl⟩ := mem_children_iff.1 hc
  obtain ⟨hlt, rfl⟩ := List.getElem?_eq_some_iff.1 hn
  rw [fills, down, beq_iff_eq, List.findIdx?_eq_some_iff_getElem] at h
  obtain ⟨_, hfield, hfirst⟩ := h
  rw [child?, children, List.find?_eq_some_iff_getElem]
  refine ⟨hfield, i, by simpa using hlt, by simp, fun j hj => ?_⟩
  rw [List.getElem_mapIdx, Bool.not_eq_true']
  exact Bool.eq_false_iff.2 (hfirst j hj)

/-- The node at the place of the child in a field is the child in this field. -/
theorem map_node_child? (p : Place) (field : String) :
    (p.child? field).map (·.node) = p.node.child? field := by
  rw [Node.child?, ← map_node_children, List.find?_map, child?]
  rfl

/-- No two children have one place. -/
theorem nodup_children (p : Place) : p.children.Nodup := by
  rw [children, List.nodup_iff_pairwise_ne, List.pairwise_iff_getElem]
  intro i j hi hj hij heq
  simp only [List.getElem_mapIdx, down, mk.injEq, List.cons.injEq, Prod.mk.injEq, true_and,
    and_true] at heq
  exact Nat.ne_of_lt hij heq.2

/-- A child fills a field exactly if it is the one that is found for the field. -/
theorem fills_iff {p c : Place} {field : String} (hc : c ∈ p.children) :
    c.fills field = true ↔ p.child? field = some c := by
  refine ⟨child?_eq_some_of_fills hc, fun h => ?_⟩
  rw [child?, List.find?_eq_some_iff_getElem] at h
  obtain ⟨hfield, i, hi, hci, hfirst⟩ := h
  have hlt : i < p.node.children.length := by simpa [children] using hi
  have heq : c = p.down i p.node.children[i] := by
    rw [← hci]
    exact List.getElem_mapIdx
  subst heq
  rw [fills, down, beq_iff_eq, List.findIdx?_eq_some_iff_getElem]
  refine ⟨hlt, hfield, fun j hj => ?_⟩
  have hother := hfirst j hj
  simp only [children, List.getElem_mapIdx, down, Bool.not_eq_true'] at hother
  exact Bool.eq_false_iff.1 hother

/-- Induction over a place from the places of its children to itself. -/
theorem induct {P : Place → Prop} (step : ∀ p, (∀ c ∈ p.children, P c) → P p) (p : Place) :
    P p := by
  obtain ⟨n, above⟩ := p
  induction n using Node.induct generalizing above with
  | step n ih =>
    refine step _ fun q hq => ?_
    obtain ⟨i, c, hc, rfl⟩ := mem_children_iff.1 hq
    exact ih c (List.mem_of_getElem? hc) _

/-! ## Listing -/

/-- A place and all places below it, parents before children. -/
def preorder (p : Place) : List Place := preorderFrom p.above p.node

/-- The places of a tree are listed from the place of its root. -/
theorem all_eq (root : Node) : all root = preorder ⟨root, []⟩ := rfl

/-- The listing of some children of `parent`, as a listing of their places. -/
theorem preorderAmong_eq (parent : Node) (above : List (Node × Nat)) (index : Nat)
    (ns : List Node) :
    preorderAmong parent above index ns =
      (ns.mapIdx fun i n => (⟨n, (parent, index + i) :: above⟩ : Place)).flatMap preorder := by
  induction ns generalizing index with
  | nil => rfl
  | cons n ns ih =>
      rw [preorderAmong, ih, List.mapIdx_cons, List.flatMap_cons]
      simp only [preorder, Nat.add_zero, Nat.add_assoc, Nat.add_comm 1]

/-- **The listing of a place** is the place and then what the places of its children list. -/
theorem preorder_eq (p : Place) : p.preorder = p :: p.children.flatMap preorder := by
  obtain ⟨⟨kind, start, stop, named, missing, broken, field, children⟩, above⟩ := p
  rw [preorder, preorderFrom, preorderAmong_eq]
  simp only [Nat.zero_add]
  rfl

/-! ## Below -/

/-- The place `q` lies properly below `p`. -/
inductive Below (p : Place) : Place → Prop where
  /-- The place of a child lies below. -/
  | child {c : Place} (hc : c ∈ p.children) : Below p c
  /-- So do the places of the children of what lies below. -/
  | deeper {q c : Place} (hq : Below p q) (hc : c ∈ q.children) : Below p c

/-- What lies below a place that lies below. -/
theorem Below.trans {p q r : Place} (h : p.Below q) (h' : q.Below r) : p.Below r := by
  induction h' with
  | child hc => exact .deeper h hc
  | deeper _ hc ih => exact .deeper ih hc

/-- The way down from `p` to what lies below starts with a child of `p`. -/
theorem below_iff_child {p q : Place} :
    p.Below q ↔ ∃ c ∈ p.children, q = c ∨ c.Below q := by
  constructor
  · intro h
    induction h with
    | child hc => exact ⟨_, hc, .inl rfl⟩
    | deeper _ hd ih =>
        obtain ⟨c, hc, rfl | hq⟩ := ih
        · exact ⟨_, hc, .inr (.child hd)⟩
        · exact ⟨_, hc, .inr (.deeper hq hd)⟩
  · rintro ⟨c, hc, rfl | hq⟩
    · exact .child hc
    · exact (Below.child hc).trans hq

/-- A place that lists `q` is `q` or lies above it. -/
theorem mem_preorder_iff {p q : Place} : q ∈ p.preorder ↔ q = p ∨ p.Below q := by
  induction p using Place.induct with
  | step p ih =>
    rw [preorder_eq, List.mem_cons, List.mem_flatMap, below_iff_child]
    exact or_congr_right (exists_congr fun c => and_congr_right fun hc => ih c hc)

/-- **The places of a tree** are its root's and those below. -/
theorem mem_all_iff {root : Node} {p : Place} :
    p ∈ all root ↔ p = ⟨root, []⟩ ∨ Below ⟨root, []⟩ p := by
  rw [all_eq, mem_preorder_iff]

/-- A tree that has a place has what lies below it. -/
theorem Below.mem_all {root : Node} {p q : Place} (h : p.Below q) (hp : p ∈ all root) :
    q ∈ all root := by
  rcases mem_all_iff.1 hp with rfl | hp
  · exact mem_all_iff.2 (.inr h)
  · exact mem_all_iff.2 (.inr (hp.trans h))

/-- What lies below has the way up of `p`, with `p` itself on it, as the end of its own way up. -/
theorem Below.above_suffix {p q : Place} (h : p.Below q) :
    ∃ i, (p.node, i) :: p.above <:+ q.above := by
  induction h with
  | child hc =>
      obtain ⟨i, c, -, rfl⟩ := mem_children_iff.1 hc
      exact ⟨i, List.suffix_rfl⟩
  | deeper _ hc ih =>
      obtain ⟨i, hi⟩ := ih
      obtain ⟨j, c, -, rfl⟩ := mem_children_iff.1 hc
      exact ⟨i, hi.trans (List.suffix_cons _ _)⟩

/-- What lies below is deeper in the tree. -/
theorem Below.length_lt {p q : Place} (h : p.Below q) : p.above.length < q.above.length := by
  obtain ⟨i, hi⟩ := h.above_suffix
  exact hi.length_le

/-- What a place lists does not lie above it. -/
theorem not_below_of_mem_preorder {p q : Place} (h : q ∈ p.preorder) : ¬ q.Below p := by
  intro hq
  rcases mem_preorder_iff.1 h with rfl | h
  · exact absurd hq.length_lt (Nat.lt_irrefl _)
  · exact absurd (hq.trans h).length_lt (Nat.lt_irrefl _)

/-- The way up from what a child lists passes through the child's position. -/
theorem above_suffix_of_mem_preorder {p q : Place} {i : Nat} {c : Node}
    (h : q ∈ (p.down i c).preorder) : (p.node, i) :: p.above <:+ q.above := by
  rcases mem_preorder_iff.1 h with rfl | h
  · exact List.suffix_rfl
  · obtain ⟨j, hj⟩ := h.above_suffix
    exact (List.suffix_cons _ _).trans hj

/-- No two children list a common place. -/
theorem disjoint_preorder_down {p : Place} {i j : Nat} {c d : Node} (hij : i ≠ j) :
    (p.down i c).preorder.Disjoint (p.down j d).preorder := by
  intro q hc hd
  obtain ⟨s, hs⟩ := above_suffix_of_mem_preorder hc
  obtain ⟨t, ht⟩ := above_suffix_of_mem_preorder hd
  have := List.append_inj_right' (hs.trans ht.symm) (by simp)
  simp only [List.cons.injEq, Prod.mk.injEq, true_and, and_true] at this
  exact hij this

/-- Two children that list a common place are the same. -/
theorem eq_of_mem_preorder {p c d q : Place} (hc : c ∈ p.children) (hd : d ∈ p.children)
    (hqc : q ∈ c.preorder) (hqd : q ∈ d.preorder) : c = d := by
  obtain ⟨i, m, hm, rfl⟩ := mem_children_iff.1 hc
  obtain ⟨j, n, hn, rfl⟩ := mem_children_iff.1 hd
  by_cases hij : i = j
  · subst hij
    rw [hm] at hn
    cases hn
    rfl
  · exact (disjoint_preorder_down hij hqc hqd).elim

/-- On the way from `p` down through the child `c` every place below `p` is listed by `c`. -/
theorem mem_preorder_of_below {p c q r : Place} (hc : c ∈ p.children) (hq : q ∈ c.preorder)
    (hr : p.Below r) (hrq : r.Below q) : r ∈ c.preorder := by
  obtain ⟨d, hd, hrd⟩ := below_iff_child.1 hr
  rw [← mem_preorder_iff] at hrd
  have hqd : q ∈ d.preorder := by
    rcases mem_preorder_iff.1 hrd with rfl | hdr
    · exact mem_preorder_iff.2 (.inr hrq)
    · exact mem_preorder_iff.2 (.inr (hdr.trans hrq))
  rwa [eq_of_mem_preorder hc hd hq hqd]

/-- **A tree has each of its places once**: no place lists another twice. -/
theorem nodup_preorder (p : Place) : p.preorder.Nodup := by
  induction p using Place.induct with
  | step p ih =>
    rw [preorder_eq, List.nodup_cons]
    constructor
    · intro h
      obtain ⟨c, hc, hq⟩ := List.mem_flatMap.1 h
      exact absurd (below_iff_child.2 ⟨c, hc, mem_preorder_iff.1 hq⟩).length_lt (Nat.lt_irrefl _)
    · refine List.nodup_flatMap.2 ⟨ih, ?_⟩
      rw [children, List.pairwise_iff_getElem]
      intro i j hi hj hij
      simp only [List.getElem_mapIdx]
      exact disjoint_preorder_down (Nat.ne_of_lt hij)

/-! ## The nodes at places -/

/-- The nodes at the places that a place lists are the nodes that its node lists. -/
theorem map_node_preorder (p : Place) : p.preorder.map (·.node) = p.node.preorder := by
  induction p using Place.induct with
  | step p ih =>
    rw [preorder_eq, List.map_cons, List.map_flatMap, Node.preorder_eq]
    refine congrArg (p.node :: ·) ?_
    calc p.children.flatMap (fun c => c.preorder.map (·.node))
        = p.children.flatMap (fun c => c.node.preorder) := List.flatMap_congr ih
      _ = (p.children.map (·.node)).flatMap Node.preorder := by rw [List.flatMap_map]
      _ = p.node.children.flatMap Node.preorder := by rw [map_node_children]

/-- The node at a place of a tree is one that the tree lists. -/
theorem node_mem_of_mem_all {root : Node} {p : Place} (hp : p ∈ all root) :
    p.node ∈ root.preorder := by
  have := List.mem_map_of_mem (f := (·.node)) hp
  rwa [all_eq, map_node_preorder] at this

/-! ## Ancestors -/

/-- The ancestors of a child are the node and its ancestors. -/
theorem ancestors_of_mem_children {q c : Place} (hc : c ∈ q.children) :
    c.ancestors = q.node :: q.ancestors := by
  obtain ⟨i, n, -, rfl⟩ := mem_children_iff.1 hc
  rfl

/-- A child has one parent. -/
theorem eq_of_mem_children {p q c : Place} (hp : c ∈ p.children) (hq : c ∈ q.children) :
    p = q := by
  obtain ⟨i, m, -, rfl⟩ := mem_children_iff.1 hp
  obtain ⟨j, n, -, h⟩ := mem_children_iff.1 hq
  obtain ⟨pnode, pabove⟩ := p
  obtain ⟨qnode, qabove⟩ := q
  simp only [down, mk.injEq, List.cons.injEq, Prod.mk.injEq] at h
  rw [h.2.1.1, h.2.2]

/-- What a child lies below is its parent and what the parent lies below. -/
theorem below_iff_parent {p q c : Place} (hc : c ∈ q.children) :
    p.Below c ↔ p = q ∨ p.Below q := by
  constructor
  · intro h
    cases h with
    | child hp => exact .inl (eq_of_mem_children hp hc)
    | deeper hpr hr =>
        rw [eq_of_mem_children hc hr]
        exact .inr hpr
  · rintro (rfl | h)
    · exact .child hc
    · exact .deeper h hc

/-- Of two places above a third one lies above the other. -/
theorem Below.comparable {p q r : Place} (hp : p.Below q) (hr : r.Below q) :
    r = p ∨ p.Below r ∨ r.Below p := by
  induction hp with
  | child hc => exact ((below_iff_parent hc).1 hr).imp_right .inr
  | deeper hp hc ih =>
      rcases (below_iff_parent hc).1 hr with rfl | hr
      · exact .inr (.inl hp)
      · exact ih hr

/-- **The ancestors** of a place are the nodes at the places that it lies below. -/
theorem mem_ancestors_iff {root : Node} {p : Place} (hp : p ∈ all root) {n : Node} :
    n ∈ p.ancestors ↔ ∃ a ∈ all root, a.Below p ∧ a.node = n := by
  have step : ∀ {q c : Place}, q ∈ all root → c ∈ q.children →
      (n ∈ q.ancestors ↔ ∃ a ∈ all root, a.Below q ∧ a.node = n) →
      (n ∈ c.ancestors ↔ ∃ a ∈ all root, a.Below c ∧ a.node = n) := by
    intro q c hq hc ih
    rw [ancestors_of_mem_children hc, List.mem_cons, ih]
    simp only [below_iff_parent hc]
    constructor
    · rintro (rfl | ⟨a, ha, hbelow, rfl⟩)
      · exact ⟨q, hq, .inl rfl, rfl⟩
      · exact ⟨a, ha, .inr hbelow, rfl⟩
    · rintro ⟨a, ha, rfl | hbelow, rfl⟩
      · exact .inl rfl
      · exact .inr ⟨a, ha, hbelow, rfl⟩
  have hroot : (⟨root, []⟩ : Place) ∈ all root := mem_all_iff.2 (.inl rfl)
  have hbase : n ∈ (⟨root, []⟩ : Place).ancestors ↔
      ∃ a ∈ all root, a.Below ⟨root, []⟩ ∧ a.node = n := by
    constructor
    · intro h
      exact absurd h List.not_mem_nil
    · rintro ⟨a, -, hbelow, -⟩
      exact absurd hbelow.length_lt (Nat.not_lt_zero _)
  rcases mem_all_iff.1 hp with rfl | hbelow
  · exact hbase
  · induction hbelow with
    | child hc => exact step hroot hc hbase
    | deeper hq hc ih =>
        have hq := hq.mem_all hroot
        exact step hq hc (ih hq)

/-- The ancestors of a place of a tree are nodes that the tree lists. -/
theorem mem_preorder_of_mem_ancestors {root : Node} {p : Place} (hp : p ∈ all root) {n : Node}
    (hn : n ∈ p.ancestors) : n ∈ root.preorder := by
  obtain ⟨a, ha, -, rfl⟩ := (mem_ancestors_iff hp).1 hn
  exact node_mem_of_mem_all ha

/-- The place that a list of positions leads to; the way ends where there is no such child. -/
def follow (p : Place) : List Nat → Place
  | [] => p
  | i :: is =>
    match p.node.children[i]? with
    | some c => (p.down i c).follow is
    | none => p

/-- A way down leads to a place that is listed. -/
theorem follow_mem_preorder (p : Place) (is : List Nat) : p.follow is ∈ p.preorder := by
  induction is generalizing p with
  | nil => exact mem_preorder_iff.2 (.inl rfl)
  | cons i is ih =>
      rw [follow]
      split
      · next c hc =>
        have hchild : p.down i c ∈ p.children := mem_children_iff.2 ⟨i, c, hc, rfl⟩
        exact mem_preorder_iff.2 (.inr (below_iff_child.2 ⟨_, hchild, mem_preorder_iff.1 (ih _)⟩))
      · exact mem_preorder_iff.2 (.inl rfl)

end Place

end ScriptScrub
