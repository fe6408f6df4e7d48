import Mathlib.Data.List.DropRight
import ScriptScrub.Proofs.Syntax.Nesting
import ScriptScrub.Syntax.Grammar

/-!
# The first fault of a tree

A tree with faults is refused at the first of them. The walk with a stack comes to the nodes in the
order of the listing (`Node.walk_eq`), so the fault that is found stands at the first faulty place
(`Place.IsFirstFault`). In a well-nested tree no place that is listed later starts earlier
(`Place.pairwise_start`): the first fault is also the leftmost one. What is told of it is the line
and the column at which it starts (`IsLocation`, `Node.isLocation`).
-/

namespace ScriptScrub

namespace Node

/-! ## The walk -/

/-- The walk with a stack comes to what the trees on it list, one tree after the other. -/
theorem walkStack_eq (ns : List Node) : walkStack ns = ns.flatMap preorder := by
  induction ns using walkStack.induct with
  | case1 => rw [walkStack, List.flatMap_nil]
  | case2 n ns ih =>
      rw [walkStack, ih, List.flatMap_append, List.flatMap_cons, preorder_eq, List.cons_append]

/-- **The walk lists the tree**, parents before children. -/
theorem walk_eq (root : Node) : root.walk = root.preorder := by
  rw [walk, walkStack_eq, List.flatMap_singleton]

/-! ## Errors -/

/-- The error of a node: its own or that of a child. -/
theorem hasError_eq (n : Node) :
    n.hasError = (n.broken || n.isFault || n.children.any hasError) := by
  have among : ∀ ns : List Node, anyHasError ns = ns.any hasError := by
    intro ns
    induction ns with
    | nil => rfl
    | cons n ns ih => rw [anyHasError, ih, List.any_cons]
  obtain ⟨kind, start, stop, named, missing, broken, field, children⟩ := n
  rw [hasError, among, isFault, Bool.or_assoc broken]

/-- **A tree has an error** exactly if one of its nodes is a fault or counts as faulty. -/
theorem hasError_iff {n : Node} :
    n.hasError = true ↔ ∃ m ∈ n.preorder, m.broken = true ∨ m.isFault = true := by
  induction n using Node.induct with
  | step n ih =>
    rw [hasError_eq, preorder_eq, Bool.or_eq_true, Bool.or_eq_true, List.any_eq_true]
    simp only [List.mem_cons, exists_eq_or_imp, List.mem_flatMap]
    refine or_congr_right ?_
    constructor
    · rintro ⟨c, hc, herror⟩
      obtain ⟨m, hm, hfaulty⟩ := (ih c hc).1 herror
      exact ⟨m, ⟨c, hc, hm⟩, hfaulty⟩
    · rintro ⟨m, ⟨c, hc, hm⟩, hfaulty⟩
      exact ⟨c, hc, (ih c hc).2 ⟨m, hm, hfaulty⟩⟩

end Node

/-! ## Lines and columns -/

/-- The line and the column of an offset, counted from one: there are as many line feeds before the
offset as lines before its line, and the column counts from behind the last of these line feeds. -/
structure IsLocation (source : Bytes) (offset : Nat) (line column : Nat) : Prop where
  line_eq : line = (source.take offset).count 0x0A + 1
  column_eq : ∃ lines rest, source.take offset = lines ++ rest ∧
    (∀ b ∈ lines.getLast?, b = 0x0A) ∧ 0x0A ∉ rest ∧ column = offset - lines.length + 1

/-- The bytes behind the last line feed. -/
theorem exists_lastLine (before : Bytes) :
    ∃ lines rest, before = lines ++ rest ∧ (∀ b ∈ lines.getLast?, b = 0x0A) ∧ 0x0A ∉ rest ∧
      rest.length = (before.reverse.takeWhile (· != 0x0A)).length := by
  refine ⟨before.rdropWhile (· != 0x0A), before.rtakeWhile (· != 0x0A),
    (List.rdropWhile_append_rtakeWhile ..).symm, fun b hb => ?_, fun hmem => ?_,
    List.length_reverse⟩
  · obtain ⟨hne, rfl⟩ := List.mem_getLast?_eq_getLast hb
    have hlast := List.rdropWhile_last_not (· != 0x0A) before hne
    simpa using hlast
  · have := List.mem_rtakeWhile_imp hmem
    simp at this

/-- **The location of a node** is the line and the column of its start. -/
theorem Node.isLocation (source : Bytes) (n : Node) :
    IsLocation source n.start (n.location source).1 (n.location source).2 := by
  obtain ⟨lines, rest, hbefore, hlast, hrest, hlength⟩ := exists_lastLine (source.take n.start)
  refine ⟨rfl, lines, rest, hbefore, hlast, hrest, ?_⟩
  have hle : (source.take n.start).length ≤ n.start := List.length_take_le ..
  have hsum : (source.take n.start).length = lines.length + rest.length := by
    rw [hbefore, List.length_append]
  rw [location, ← hlength]
  dsimp only
  omega

namespace Place

/-! ## Places in order -/

/-- The nodes at the places of a tree, in the order of the walk. -/
theorem map_node_all (root : Node) : (all root).map (·.node) = root.walk := by
  rw [all_eq, map_node_preorder, Node.walk_eq]

/-- **No place starts before one that is listed earlier.** -/
theorem pairwise_start {p : Place} (hp : p.node.WellNested) :
    p.preorder.Pairwise fun a b => a.node.start ≤ b.node.start := by
  induction p using Place.induct with
  | step p ih =>
    have hchild : ∀ c ∈ p.children, c.node.WellNested := fun c hc =>
      hp.child (node_mem_of_mem_children hc)
    rw [preorder_eq, List.pairwise_cons]
    constructor
    · intro q hq
      refine (range_of_mem_preorder hp ?_).1
      rw [preorder_eq]
      exact List.mem_cons_of_mem _ hq
    · refine List.pairwise_flatMap.2 ⟨fun c hc => ih c hc (hchild c hc), ?_⟩
      refine (pairwise_children hp).imp_of_mem fun {c d} hc hd hcd q hq r hr => ?_
      -- `q` ends with `c` at the latest, and `r` starts with `d` at the earliest
      have hqc := (range_of_mem_preorder (hchild c hc) hq).2
      have hrd := (range_of_mem_preorder (hchild d hd) hr).1
      have hordered : q.node.start ≤ q.node.stop := by
        rcases mem_preorder_iff.1 hq with rfl | hbelow
        · exact (hchild _ hc).nests.ordered
        · exact (hbelow.wellNested (hchild c hc)).nests.ordered
      omega

/-- The place is the first of a tree that is a fault. -/
structure IsFirstFault (root : Node) (p : Place) : Prop where
  isFault : p.node.isFault = true
  first : ∃ earlier later, all root = earlier ++ p :: later ∧
    ∀ q ∈ earlier, q.node.isFault = false

section
variable {root : Node} {p : Place}

/-- A tree with a fault has a first one, and this one is found. -/
theorem exists_isFirstFault (h : ∃ p ∈ all root, p.node.isFault = true) :
    ∃ p, IsFirstFault root p ∧ root.firstFault? = some p.node := by
  have hfound : root.firstFault? = ((all root).find? (·.node.isFault)).map (·.node) := by
    rw [Node.firstFault?, ← map_node_all, List.find?_map]
    rfl
  obtain ⟨p, hp⟩ := Option.isSome_iff_exists.1 (List.find?_isSome.2 h)
  obtain ⟨hfault, earlier, later, hsplit, hearlier⟩ := List.find?_eq_some_iff_append.1 hp
  refine ⟨p, ⟨hfault, earlier, later, hsplit, fun q hq => ?_⟩, by rw [hfound, hp, Option.map_some]⟩
  exact Bool.not_eq_true' _ ▸ hearlier q hq

/-- In a tree without a fault none is found. -/
theorem firstFault?_eq_none (h : ∀ p ∈ all root, p.node.isFault = false) :
    root.firstFault? = none := by
  rw [Node.firstFault?, ← map_node_all, List.find?_eq_none]
  intro n hn
  obtain ⟨p, hp, rfl⟩ := List.mem_map.1 hn
  exact Bool.eq_false_iff.1 (h p hp)

/-- The first fault is a place of the tree. -/
theorem IsFirstFault.mem_all (h : IsFirstFault root p) : p ∈ all root := by
  obtain ⟨earlier, later, hsplit, -⟩ := h.first
  rw [hsplit]
  exact List.mem_append_right _ List.mem_cons_self

/-- A tree with a fault has an error. -/
theorem IsFirstFault.hasError (h : IsFirstFault root p) : root.hasError = true :=
  Node.hasError_iff.2 ⟨p.node, node_mem_of_mem_all h.mem_all, .inr h.isFault⟩

/-- **The first fault of a well-nested tree is the leftmost one.** -/
theorem IsFirstFault.start_le (h : IsFirstFault root p) (hroot : root.WellNested) {q : Place}
    (hq : q ∈ all root) (hfault : q.node.isFault = true) : p.node.start ≤ q.node.start := by
  obtain ⟨earlier, later, hsplit, hearlier⟩ := h.first
  have hordered := pairwise_start (p := ⟨root, []⟩) hroot
  rw [← all_eq, hsplit] at hordered
  have hlater := (List.pairwise_cons.1 (List.pairwise_append.1 hordered).2.1).1
  rw [hsplit, List.mem_append, List.mem_cons] at hq
  rcases hq with hq | rfl | hq
  · rw [hearlier q hq] at hfault
    cases hfault
  · exact Nat.le_refl _
  · exact hlater q hq

end

end Place

/-! ## Parsing -/

/-- The walk comes to each place of a tree once, parents before children. -/
structure WalksEach (root : Node) : Prop where
  preorder : root.walk = root.preorder
  nodes : root.walk = (Place.all root).map (·.node)
  once : (Place.all root).Nodup
  every : ∀ p, p ∈ Place.all root ↔ p = ⟨root, []⟩ ∨ Place.Below ⟨root, []⟩ p

/-- **The walk comes to every place once.** -/
theorem walksEach (root : Node) : WalksEach root where
  preorder := root.walk_eq
  nodes := (Place.map_node_all root).symm
  once := Place.nodup_preorder ⟨root, []⟩
  every _ := Place.mem_all_iff

/-- The failure of the file at a path points at a faulty node: it tells what is wrong with the node
and where the node starts. -/
structure PointsAt (source : Bytes) (path : String) (n : Node) (failure : Failure) : Prop where
  path_eq : failure.path = path
  kind : failure.cause.kind = .parse
  cause : failure.cause = if n.missing then .missingToken n.kind else .unexpectedToken
  location : ∃ line column, failure.location = some (line, column) ∧
    IsLocation source n.start line column

namespace Grammar

section
variable {grammar : Grammar} {path : String} {dialect : Dialect} {source : Bytes} {root : Node}
variable (hdialect : Dialect.ofPath? path = some dialect)
variable (hroot : grammar dialect source = .ok root)
include hdialect hroot

/-- What becomes of the tree that the grammar gives. -/
theorem parse_eq_of_tree :
    grammar.parse path source =
      if root.hasError then
        match root.firstFault? with
        | none => .error ⟨path, .syntaxError, none⟩
        | some n =>
          .error ⟨path, if n.missing then .missingToken n.kind else .unexpectedToken,
            some (n.location source)⟩
      else .ok root := by
  dsimp only [parse]
  rw [hdialect]
  dsimp only
  rewrite [hroot]
  rfl

/-- A tree with a fault is refused with a failure that points at the fault that is found. -/
theorem parse_of_firstFault {n : Node} (herror : root.hasError = true)
    (hfault : root.firstFault? = some n) :
    ∃ failure, grammar.parse path source = .error failure ∧ PointsAt source path n failure := by
  rw [parse_eq_of_tree hdialect hroot, if_pos herror, hfault]
  refine ⟨_, rfl, rfl, ?_, rfl, _, _, rfl, n.isLocation source⟩
  cases n.missing <;> rfl

/-- **A parse error points at the first fault.** The walk comes to every node of a tree once,
parents before children. A tree with a fault is refused at the first one, and none starts earlier;
one that reports an error without a fault is refused without a location; any other is accepted. -/
theorem parse_points_at_first_fault (hnested : root.WellNested) :
    WalksEach root ∧
    ((∃ p ∈ Place.all root, p.node.isFault = true) →
      ∃ p failure, grammar.parse path source = .error failure ∧ Place.IsFirstFault root p ∧
        PointsAt source path p.node failure ∧
        ∀ q ∈ Place.all root, q.node.isFault = true → p.node.start ≤ q.node.start) ∧
    ((∀ p ∈ Place.all root, p.node.isFault = false) → root.hasError = true →
      grammar.parse path source = .error ⟨path, .syntaxError, none⟩) ∧
    ((∀ p ∈ Place.all root, p.node.isFault = false) → root.hasError = false →
      grammar.parse path source = .ok root) := by
  refine ⟨walksEach root, fun h => ?_, fun h herror => ?_, fun _ herror => ?_⟩
  · obtain ⟨p, hfirst, hfound⟩ := Place.exists_isFirstFault h
    obtain ⟨failure, hparse, hpoints⟩ := parse_of_firstFault hdialect hroot hfirst.hasError hfound
    exact ⟨p, failure, hparse, hfirst, hpoints, fun q hq hq' => hfirst.start_le hnested hq hq'⟩
  · rw [parse_eq_of_tree hdialect hroot, if_pos herror, Place.firstFault?_eq_none h]
  · rw [parse_eq_of_tree hdialect hroot, herror, if_neg Bool.false_ne_true]

end

end Grammar

/-- A call with a number too many that is never closed. -/
def unclosedSource : Bytes := Text.encode "a;\nf(1 2\n"

/-- A tree of `unclosedSource`: the second number is an error, and a bracket is missing behind. -/
def unclosedCall : Node where
  kind := "program"
  start := 0
  stop := 9
  children := [
    { kind := "expression_statement", start := 0, stop := 2, children := [
      { kind := "identifier", start := 0, stop := 1 },
      { kind := ";", start := 1, stop := 2, named := false }] },
    { kind := "expression_statement", start := 3, stop := 8, children := [
      { kind := "call_expression", start := 3, stop := 8, children := [
        { kind := "identifier", start := 3, stop := 4, field := some "function" },
        { kind := "arguments", start := 4, stop := 8, field := some "arguments", children := [
          { kind := "(", start := 4, stop := 5, named := false },
          { kind := "number", start := 5, stop := 6 },
          { kind := Node.errorKind, start := 7, stop := 8, children := [
            { kind := "number", start := 7, stop := 8 }] },
          { kind := ")", start := 8, stop := 8, named := false, missing := true }] }] }] }]

/-- A grammar that gives every source the tree `unclosedCall`. -/
def unclosedGrammar : Grammar := fun _ _ => .ok unclosedCall

/-- The failure points at the second number, not at the missing bracket. -/
theorem Grammar.parse_points_at_first_fault_unclosedCall :
    ∃ p, Place.IsFirstFault unclosedCall p ∧
      PointsAt unclosedSource "a.js" p.node ⟨"a.js", .unexpectedToken, some (2, 5)⟩ ∧
      ∀ q ∈ Place.all unclosedCall, q.node.isFault = true → p.node.start ≤ q.node.start := by
  have hdialect : Dialect.ofPath? "a.js" = some .javascript := by decide +kernel
  have hroot : unclosedGrammar .javascript unclosedSource = .ok unclosedCall := rfl
  have hnested : unclosedCall.WellNested := by decide +kernel
  have hfault : ∃ p ∈ Place.all unclosedCall, p.node.isFault = true := by decide +kernel
  obtain ⟨-, hrefused, -⟩ := parse_points_at_first_fault hdialect hroot hnested
  obtain ⟨p, failure, hparse, hfirst, hpoints, hleftmost⟩ := hrefused hfault
  have htold : (match unclosedGrammar.parse "a.js" unclosedSource with
      | .error failure => some failure
      | .ok _ => none) = some ⟨"a.js", .unexpectedToken, some (2, 5)⟩ := by decide +kernel
  rw [hparse] at htold
  cases htold
  exact ⟨p, hfirst, hpoints, hleftmost⟩

end ScriptScrub
