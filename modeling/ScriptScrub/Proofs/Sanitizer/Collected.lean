import ScriptScrub.Sanitizer.Sanitize
import ScriptScrub.Proofs.Syntax.Nesting
import ScriptScrub.Proofs.Sanitizer.Walk

/-!
# The edits of a tree

The edits of a tree are the answers that its walk finds (`found`), and a place at which the walk
gets an edit is `Matched`. In a well-nested tree the edits come one after the other
(`pairwise_found`), so sorting them changes nothing (`editsOf_eq_found`), and at a place that the
walk comes to they fall into those before it, those of the place, and those after it
(`found_split`).
-/

namespace ScriptScrub.Sanitizer

open Config (SanitizerSettings)

/-! ## Found answers -/

section
variable {α : Type} {answer : Place → Option α}

/-- The answers on the record of a walk. -/
def found (answer : Place → Option α) (p : Place) : List α :=
  (walk answer p).filterMap Visit.answer

/-- A walk finds the answer at its place or what it finds at the children. -/
theorem found_eq (answer : Place → Option α) (p : Place) :
    found answer p =
      match answer p with
      | some a => [a]
      | none => p.children.flatMap (found answer) := by
  rw [found, walk_eq]
  cases answer p with
  | some a => rfl
  | none => exact List.filterMap_flatMap

/-- **The found answers** are those at places with no answer at any place above. -/
theorem mem_found_iff {p : Place} {a : α} :
    a ∈ found answer p ↔
      ∃ q ∈ p.preorder, answer q = some a ∧ ∀ r ∈ p.preorder, r.Below q → answer r = none := by
  rw [found, List.mem_filterMap]
  constructor
  · rintro ⟨⟨q, b⟩, hv, rfl⟩
    exact ⟨q, mem_walk_iff.1 hv⟩
  · rintro ⟨q, h⟩
    exact ⟨⟨q, some a⟩, mem_walk_iff.2 h, rfl⟩

end

/-! ## Ranges of found edits -/

/-- The edit that a place asks for covers its node. -/
def InPlace (answer : Place → Option RuleEdit) : Prop :=
  ∀ q e, answer q = some e → e.start = q.node.start ∧ e.stop = q.node.stop

section
variable {answer : Place → Option RuleEdit}

/-- Found edits lie in the range of the place. -/
theorem range_of_mem_found (hin : InPlace answer) {p : Place} (hp : p.node.WellNested)
    {e : RuleEdit} (he : e ∈ found answer p) :
    p.node.start ≤ e.start ∧ e.start ≤ e.stop ∧ e.stop ≤ p.node.stop := by
  obtain ⟨q, hq, ha, -⟩ := mem_found_iff.1 he
  obtain ⟨hs, ht⟩ := hin q e ha
  have hrange := Place.range_of_mem_preorder hp hq
  have hqw : q.node.WellNested := by
    rcases Place.mem_preorder_iff.1 hq with rfl | hq
    · exact hp
    · exact hq.wellNested hp
  have := hqw.nests.ordered
  omega

/-- The edits that are found at some children lie between the first and the last of them. -/
theorem range_of_mem_flatMap_found (hin : InPlace answer) {p : Place} (hp : p.node.WellNested)
    {cs : List Place} (hcs : ∀ c ∈ cs, c ∈ p.children) {e : RuleEdit}
    (he : e ∈ cs.flatMap (found answer)) :
    ∃ c ∈ cs, c.node.start ≤ e.start ∧ e.start ≤ e.stop ∧ e.stop ≤ c.node.stop := by
  obtain ⟨c, hc, he⟩ := List.mem_flatMap.1 he
  have hcw := hp.child (Place.node_mem_of_mem_children (hcs c hc))
  exact ⟨c, hc, range_of_mem_found hin hcw he⟩

/-- **Found edits come one after the other.** -/
theorem pairwise_found (hin : InPlace answer) {p : Place} (hp : p.node.WellNested) :
    (found answer p).Pairwise fun a b => a.stop ≤ b.start := by
  induction p using Place.induct with
  | step p ih =>
    rw [found_eq]
    cases answer p with
    | some a => exact List.pairwise_singleton _ _
    | none =>
        refine List.pairwise_flatMap.2 ⟨fun c hc => ?_, ?_⟩
        · exact ih c hc (hp.child (Place.node_mem_of_mem_children hc))
        · refine (Place.pairwise_children hp).imp_of_mem ?_
          intro c d hc hd hcd a ha b hb
          have hcw := hp.child (Place.node_mem_of_mem_children hc)
          have hdw := hp.child (Place.node_mem_of_mem_children hd)
          have := range_of_mem_found hin hcw ha
          have := range_of_mem_found hin hdw hb
          omega

/-- Found edits are sorted by their start. -/
theorem mergeSort_found (hin : InPlace answer) {p : Place} (hp : p.node.WellNested) :
    (found answer p).mergeSort (fun a b => a.start ≤ b.start) = found answer p := by
  refine List.mergeSort_of_pairwise ((pairwise_found hin hp).imp_of_mem ?_)
  intro a b ha _ hab
  have := range_of_mem_found hin hp ha
  exact decide_eq_true (by omega)

/-- **At a place that the walk comes to** the found edits fall into those that end before it, those
that are found at it, and those that begin after it. -/
theorem found_split (hin : InPlace answer) {p q : Place} (hp : p.node.WellNested)
    (hq : q ∈ p.preorder) (habove : ∀ r ∈ p.preorder, r.Below q → answer r = none) :
    ∃ before after, found answer p = before ++ found answer q ++ after ∧
      (∀ e ∈ before, e.stop ≤ q.node.start) ∧ ∀ e ∈ after, q.node.stop ≤ e.start := by
  induction p using Place.induct with
  | step p ih =>
    rcases Place.mem_preorder_iff.1 hq with rfl | hpq
    · exact ⟨[], [], by simp, by simp, by simp⟩
    obtain ⟨c, hc, hqc⟩ := Place.below_iff_child.1 hpq
    rw [← Place.mem_preorder_iff] at hqc
    have hcw := hp.child (Place.node_mem_of_mem_children hc)
    obtain ⟨before, after, heq, hbefore, hafter⟩ := ih c hc hcw hqc fun r hr hbelow =>
      habove r (Place.mem_preorder_iff.2 (.inr
        (Place.below_iff_child.2 ⟨c, hc, Place.mem_preorder_iff.1 hr⟩))) hbelow
    have hnone := habove p (Place.mem_preorder_iff.2 (.inl rfl)) hpq
    have hrange := Place.range_of_mem_preorder hcw hqc
    have hpair := Place.pairwise_children hp
    obtain ⟨cs, ds, hsplit⟩ := List.append_of_mem hc
    rw [hsplit] at hpair
    have hchild : ∀ d, d ∈ cs ∨ d ∈ ds → d ∈ p.children := fun d hd => by
      rw [hsplit, List.mem_append, List.mem_cons]
      exact hd.imp_right .inr
    refine ⟨cs.flatMap (found answer) ++ before, after ++ ds.flatMap (found answer), ?_, ?_, ?_⟩
    · rw [found_eq, hnone]
      simp only [hsplit, List.flatMap_append, List.flatMap_cons, heq, List.append_assoc]
    · intro e he
      rcases List.mem_append.1 he with he | he
      · obtain ⟨d, hd, hde⟩ :=
          range_of_mem_flatMap_found hin hp (fun d hd => hchild d (.inl hd)) he
        have := (List.pairwise_append.1 hpair).2.2 d hd c List.mem_cons_self
        omega
      · exact hbefore e he
    · intro e he
      rcases List.mem_append.1 he with he | he
      · exact hafter e he
      · obtain ⟨d, hd, hde⟩ :=
          range_of_mem_flatMap_found hin hp (fun d hd => hchild d (.inr hd)) he
        have := (List.pairwise_cons.1 (List.pairwise_append.1 hpair).2.1).1 d hd
        omega

end

/-! ## The edits of a tree -/

section
variable (source : Bytes) (settings : SanitizerSettings) (root : Node)

/-- The record of the walk that collects the edits of a tree. -/
def visits : List (Visit RuleEdit) :=
  ((visitFrom (match? source settings (Scope.Index.isBound source)) [] root).run {}).1

/-- The walk that collects the edits of a tree gets the edit `e` at the place `p`. -/
def Matched (p : Place) (e : RuleEdit) : Prop := ⟨p, some e⟩ ∈ visits source settings root

/-- The edits of a tree are the answers on the record of its walk, sorted. -/
theorem editsOf_eq :
    editsOf source settings root =
      ((visits source settings root).filterMap Visit.answer).mergeSort fun a b =>
        a.start ≤ b.start := by
  rw [editsOf, collect, collectStack_eq, visitEach_singleton]
  rfl

variable {source settings root}

/-- The walk that collects the edits of a tree is one with fixed answers, each of which matching
can give. -/
theorem exists_answers (source : Bytes) (settings : SanitizerSettings) (root : Node) :
    ∃ answer, visits source settings root = walk answer ⟨root, []⟩ ∧
      ∀ q, Answers (match? source settings (Scope.Index.isBound source) q) (answer q) :=
  exists_walk (match? source settings (Scope.Index.isBound source)) {} ⟨root, []⟩

/-- An edit covers the node that it is the match of. -/
theorem Match.range {ok : Place → String → Prop} {p : Place} {e : RuleEdit}
    (h : Match source settings ok p e) : e.start = p.node.start ∧ e.stop = p.node.stop := by
  cases h <;> exact ⟨rfl, rfl⟩

/-- Answers that matching can give are edits that cover their nodes. -/
theorem inPlace_of_answers {answer : Place → Option RuleEdit}
    (h : ∀ q, Answers (match? source settings (Scope.Index.isBound source) q) (answer q)) :
    InPlace answer :=
  fun q _ he => (match?_eq_some (he ▸ h q)).range

/-- **The edits of a well-nested tree** are what its walk finds, in that order. -/
theorem editsOf_eq_found {answer : Place → Option RuleEdit} (hroot : root.WellNested)
    (hin : InPlace answer) (h : visits source settings root = walk answer ⟨root, []⟩) :
    editsOf source settings root = found answer ⟨root, []⟩ := by
  rw [editsOf_eq, h]
  exact mergeSort_found hin hroot

variable (source settings) in
/-- The edits of a well-nested tree come one after the other. -/
theorem pairwise_editsOf (hroot : root.WellNested) :
    ((editsOf source settings root).map (·.toEdit)).Pairwise fun a b => a.stop ≤ b.start := by
  obtain ⟨answer, hvisits, hanswers⟩ := exists_answers source settings root
  have hplace := inPlace_of_answers hanswers
  rw [editsOf_eq_found hroot hplace hvisits, List.pairwise_map]
  exact pairwise_found (p := ⟨root, []⟩) hplace hroot

/-- The places that are matched are those with an answer and none above. -/
theorem matched_iff {answer : Place → Option RuleEdit}
    (h : visits source settings root = walk answer ⟨root, []⟩) {p : Place} {e : RuleEdit} :
    Matched source settings root p e ↔
      p ∈ Place.all root ∧ answer p = some e ∧
        ∀ r ∈ Place.all root, r.Below p → answer r = none := by
  rw [Matched, h, mem_walk_iff, Place.all_eq]

/-- What is matched is a place of the tree. -/
theorem Matched.mem_all {p : Place} {e : RuleEdit} (h : Matched source settings root p e) :
    p ∈ Place.all root := by
  obtain ⟨answer, hvisits, -⟩ := exists_answers source settings root
  exact ((matched_iff hvisits).1 h).1

/-- The edit of a matched place is one that matching can answer there. -/
theorem Matched.match {p : Place} {e : RuleEdit} (h : Matched source settings root p e) :
    Match source settings (MayGo settings (Scope.Index.isBound source)) p e := by
  obtain ⟨answer, hvisits, hanswers⟩ := exists_answers source settings root
  have ha := ((matched_iff hvisits).1 h).2.1
  exact match?_eq_some (ha ▸ hanswers p)

/-- The edits of a tree are those of its matched places. -/
theorem mem_editsOf_iff {e : RuleEdit} :
    e ∈ editsOf source settings root ↔ ∃ p, Matched source settings root p e := by
  rw [editsOf_eq, List.mem_mergeSort, List.mem_filterMap]
  constructor
  · rintro ⟨⟨p, a⟩, hv, rfl⟩
    exact ⟨p, hv⟩
  · rintro ⟨p, hv⟩
    exact ⟨_, hv, rfl⟩

/-- If no place above `p` is matched, then there is no answer at any of them. -/
theorem answer_eq_none_of_below {answer : Place → Option RuleEdit}
    (h : visits source settings root = walk answer ⟨root, []⟩) {p : Place}
    (hp : ∀ a e, a.Below p → ¬ Matched source settings root a e) {r : Place}
    (hr : r ∈ Place.all root) (hbelow : r.Below p) : answer r = none := by
  -- The outermost place with an answer at or above `r` would be matched.
  by_contra ha
  obtain ⟨q, hq, hqr, hans, habove⟩ := exists_outermost (r := ⟨root, []⟩) hr ha
  obtain ⟨e, he⟩ := Option.ne_none_iff_exists'.1 hans
  have hqp : q.Below p := by
    rcases hqr with rfl | hqr
    · exact hbelow
    · exact hqr.trans hbelow
  exact hp q e hqp ((matched_iff h).2 ⟨hq, he, habove⟩)

/-- What is found at a place that has no answer, nor has any place above it, are the edits of the
matched places below. -/
theorem mem_found_iff_matched {answer : Place → Option RuleEdit}
    (h : visits source settings root = walk answer ⟨root, []⟩) {p : Place}
    (hp : p ∈ Place.all root) (hnone : answer p = none)
    (habove : ∀ r ∈ Place.all root, r.Below p → answer r = none) {e : RuleEdit} :
    e ∈ found answer p ↔ ∃ q, p.Below q ∧ Matched source settings root q e := by
  rw [mem_found_iff]
  constructor
  · rintro ⟨q, hq, hans, hbetween⟩
    rcases Place.mem_preorder_iff.1 hq with rfl | hpq
    · rw [hnone] at hans
      cases hans
    · refine ⟨q, hpq, (matched_iff h).2 ⟨hpq.mem_all hp, hans, fun r hr hrq => ?_⟩⟩
      rcases hpq.comparable hrq with rfl | hpr | hrp
      · exact hnone
      · exact hbetween r (Place.mem_preorder_iff.2 (.inr hpr)) hrq
      · exact habove r hr hrp
  · rintro ⟨q, hpq, hmatched⟩
    obtain ⟨-, hans, hbetween⟩ := (matched_iff h).1 hmatched
    refine ⟨q, Place.mem_preorder_iff.2 (.inr hpq), hans, fun r hr hrq => hbetween r ?_ hrq⟩
    rcases Place.mem_preorder_iff.1 hr with rfl | hpr
    · exact hp
    · exact hpr.mem_all hp

/-! ## Places that stay -/

variable (source settings root) in
/-- The place is not matched, nor is any place above it. -/
structure Stays (p : Place) : Prop where
  mem : p ∈ Place.all root
  self : ∀ e, ¬ Matched source settings root p e
  above : ∀ a e, a.Below p → ¬ Matched source settings root a e

/-- The root stays if it is not matched. -/
theorem stays_root (h : ∀ e, ¬ Matched source settings root ⟨root, []⟩ e) :
    Stays source settings root ⟨root, []⟩ :=
  ⟨Place.mem_all_iff.2 (.inl rfl), h, fun _ _ ha => absurd ha.length_lt (Nat.not_lt_zero _)⟩

/-- A child of a place that stays stays if it is not matched. -/
theorem Stays.child {p c : Place} (h : Stays source settings root p) (hc : c ∈ p.children)
    (hself : ∀ e, ¬ Matched source settings root c e) : Stays source settings root c := by
  refine ⟨Place.Below.mem_all (.child hc) h.mem, hself, fun a e ha => ?_⟩
  rcases (Place.below_iff_parent hc).1 ha with rfl | ha
  · exact h.self e
  · exact h.above a e ha

/-- **An edit does not cut a place that stays**: it lies inside, before or behind. -/
theorem Stays.range {p : Place} (h : Stays source settings root p) (hroot : root.WellNested)
    {e : RuleEdit} (he : e ∈ editsOf source settings root) :
    (p.node.start ≤ e.start ∧ e.stop ≤ p.node.stop) ∨ e.stop ≤ p.node.start ∨
      p.node.stop ≤ e.start := by
  obtain ⟨q, hq⟩ := mem_editsOf_iff.1 he
  obtain ⟨hstart, hstop⟩ := hq.match.range
  rw [hstart, hstop]
  rcases Place.below_or_apart (r := ⟨root, []⟩) hroot h.mem hq.mem_all with
    rfl | hbelow | habove | hapart | hapart
  · exact absurd hq (h.self e)
  · exact .inl (hbelow.range (Place.wellNested_of_mem_all hroot h.mem))
  · exact absurd hq (h.above q e habove)
  · exact .inr (.inl hapart)
  · exact .inr (.inr hapart)

/-- **At a place that stays** the edits fall into those before it, those of matched places below
it, and those behind it. -/
theorem Stays.split {p : Place} (h : Stays source settings root p) (hroot : root.WellNested) :
    ∃ before nested after, editsOf source settings root = before ++ nested ++ after ∧
      (∀ e, e ∈ nested ↔ ∃ q, p.Below q ∧ Matched source settings root q e) ∧
      nested.Pairwise (fun a b => a.stop ≤ b.start) ∧
      (∀ e ∈ before, e.stop ≤ p.node.start) ∧
      (∀ e ∈ nested, p.node.start ≤ e.start ∧ e.start ≤ e.stop ∧ e.stop ≤ p.node.stop) ∧
      ∀ e ∈ after, p.node.stop ≤ e.start := by
  obtain ⟨answer, hvisits, hanswers⟩ := exists_answers source settings root
  have hplace := inPlace_of_answers hanswers
  have hnone : ∀ r ∈ Place.all root, r.Below p → answer r = none := fun r hr hrp =>
    answer_eq_none_of_below hvisits h.above hr hrp
  have hpnone : answer p = none := by
    cases ha : answer p with
    | none => rfl
    | some e => exact absurd ((matched_iff hvisits).2 ⟨h.mem, ha, hnone⟩) (h.self e)
  obtain ⟨before, after, hsplit, hbefore, hafter⟩ :=
    found_split (p := ⟨root, []⟩) hplace hroot h.mem hnone
  have hpw := Place.wellNested_of_mem_all hroot h.mem
  refine ⟨before, found answer p, after, ?_, fun e => ?_, pairwise_found hplace hpw, hbefore,
    fun e he => range_of_mem_found hplace hpw he, hafter⟩
  · rw [editsOf_eq_found hroot hplace hvisits, hsplit]
  · exact mem_found_iff_matched hvisits h.mem hpnone hnone

end

end ScriptScrub.Sanitizer
