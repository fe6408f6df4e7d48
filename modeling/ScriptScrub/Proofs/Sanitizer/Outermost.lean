import ScriptScrub.Proofs.Sanitizer.Reference
import ScriptScrub.Proofs.Sanitizer.Total

/-!
# The outermost matches

What the matcher has answered at a place it answers there again, as the index only learns. So with
the answers of the index that a walk leaves behind (`boundBy`) matching needs no state
(`matchGiven`), and the walk finds the edits of the outermost of the places that ask for one, each
once and in the order of the tree (`areOutermost_found`). Matching misses no node that the settings
remove (`matchGiven_ne_none`), so every such node lies in the range of one edit
(`exists_around_found`). The walk of the sanitizer, which keeps a stack, does all that
(`collect_outermost`).
-/

namespace ScriptScrub.Sanitizer

open Config (SanitizerSettings)

/-! ## Outermost places -/

/-- The edits are the answers of the outermost of the places of a tree that have one, each once and
in the order of the tree. -/
def AreOutermost (answer : Place → Option RuleEdit) (root : Node) (edits : List RuleEdit) : Prop :=
  ∃ places : List Place, places.Sublist (Place.all root) ∧
    (∀ p, p ∈ places ↔
      p ∈ Place.all root ∧ answer p ≠ none ∧ ∀ a ∈ Place.all root, a.Below p → answer a = none) ∧
    places.map answer = edits.map some

section
variable {answer : Place → Option RuleEdit} {root : Node}

/-- **A walk finds the answers of the outermost places.** -/
theorem areOutermost_found (answer : Place → Option RuleEdit) (root : Node) :
    AreOutermost answer root (found answer ⟨root, []⟩) := by
  have hvisit : ∀ v ∈ walk answer ⟨root, []⟩, answer v.place = v.answer := fun v hv =>
    (mem_walk_iff.1 hv).2.1
  refine ⟨((walk answer ⟨root, []⟩).filter (·.answer.isSome)).map (·.place),
    (List.filter_sublist.map _).trans (sublist_walk answer _), fun p => ?_, ?_⟩
  · rw [List.mem_map]
    constructor
    · rintro ⟨v, hv, rfl⟩
      obtain ⟨hv, hsome⟩ := List.mem_filter.1 hv
      obtain ⟨hmem, hans, habove⟩ := mem_walk_iff.1 hv
      rw [hans]
      exact ⟨hmem, Option.isSome_iff_ne_none.1 hsome, habove⟩
    · rintro ⟨hp, hans, habove⟩
      refine ⟨⟨p, answer p⟩, List.mem_filter.2 ⟨mem_walk_iff.2 ⟨hp, rfl, habove⟩, ?_⟩, rfl⟩
      exact Option.isSome_iff_ne_none.2 hans
  · rw [found, List.map_map]
    generalize walk answer ⟨root, []⟩ = visits at hvisit ⊢
    induction visits with
    | nil => rfl
    | cons v vs ih =>
        obtain ⟨hfirst, hrest⟩ := List.forall_mem_cons.1 hvisit
        obtain ⟨p, a⟩ := v
        cases a with
        | none => simpa using ih hrest
        | some a => simpa [hfirst] using ih hrest

/-- The edits whose ranges lie around a node. -/
def around (n : Node) (edits : List RuleEdit) : List RuleEdit :=
  edits.filter fun e => e.start ≤ n.start ∧ n.stop ≤ e.stop

/-- **A place that has an answer** and is not empty lies in the range of one edit that is found. -/
theorem exists_around_found (hin : InPlace answer) (hroot : root.WellNested) {p : Place}
    (hp : p ∈ Place.all root) (hne : p.node.start < p.node.stop) (h : answer p ≠ none) :
    ∃ e, around p.node (found answer ⟨root, []⟩) = [e] := by
  obtain ⟨q, hq, hqp, hans, habove⟩ := exists_outermost (r := ⟨root, []⟩) hp h
  obtain ⟨e, he⟩ := Option.ne_none_iff_exists'.1 hans
  have hfound : e ∈ found answer ⟨root, []⟩ := mem_found_iff.2 ⟨q, hq, he, habove⟩
  have hrange : q.node.start ≤ p.node.start ∧ p.node.stop ≤ q.node.stop := by
    rcases hqp with rfl | hqp
    · exact ⟨Nat.le_refl _, Nat.le_refl _⟩
    · exact hqp.range (Place.wellNested_of_mem_all hroot hq)
  have hmem : e ∈ around p.node (found answer ⟨root, []⟩) := by
    obtain ⟨hstart, hstop⟩ := hin q e he
    refine List.mem_filter.2 ⟨hfound, decide_eq_true ?_⟩
    rw [hstart, hstop]
    exact hrange
  -- Two edits around the place would both have its text, but one ends before the other begins.
  have hpair : (around p.node (found answer ⟨root, []⟩)).Pairwise fun a b => a.stop ≤ b.start :=
    (pairwise_found (p := ⟨root, []⟩) hin hroot).filter _
  have hrange : ∀ a ∈ around p.node (found answer ⟨root, []⟩),
      a.start ≤ p.node.start ∧ p.node.stop ≤ a.stop :=
    fun a ha => of_decide_eq_true (List.mem_filter.1 ha).2
  match around p.node (found answer ⟨root, []⟩), hmem, hpair, hrange with
  | [a], _, _, _ => exact ⟨a, rfl⟩
  | a :: b :: _, _, hpair, hrange =>
      have hab := (List.pairwise_cons.1 hpair).1 b List.mem_cons_self
      have ha := hrange a List.mem_cons_self
      have hb := hrange b (.tail _ List.mem_cons_self)
      omega

end

/-! ## Matching with given answers -/

section
variable (source : Bytes) (settings : SanitizerSettings) (bound : Place → Bool)

/-- Looking a name up where the answers are given. -/
def given (o : Place) : StateM Unit Bool := pure (bound o)

/-- The edit that a place asks for if the names of the places in `bound` are bound. -/
def matchGiven (p : Place) : Option RuleEdit := ((match? source settings (given bound) p).run ()).1

/-- The settings remove the node at a place if the names of the places in `bound` are bound: it is a
comment, or a diagnostic call, bind or detached reference. -/
def IsRemovable (p : Place) : Prop :=
  isComment p.node = true ∧ .stripComments ∈ settings.rules ∨
    .removeDiagnosticCall ∈ settings.rules ∧
      (isRemovableCall source settings (given bound) p = pure true ∨
        isRemovableBind source settings (given bound) p = pure true ∨
        isDetachedReference source settings (given bound) p = pure true)

variable {source settings bound} {p r o : Place} {s : String}

/-- The edit that a place asks for covers its node. -/
theorem inPlace_matchGiven : InPlace (matchGiven source settings bound) :=
  fun _ _ he => (match?_eq_some ⟨(), he⟩).range

/-- A computation with nothing to remember is its answer. -/
theorem exists_eq_pure {α : Type} (x : StateM Unit α) : ∃ a, x = pure a := ⟨(x.run ()).1, rfl⟩

/-- A comment asks for an edit. -/
theorem matchGiven_ne_none_of_isComment (hn : isComment p.node = true)
    (hr : .stripComments ∈ settings.rules) : matchGiven source settings bound p ≠ none := by
  rw [matchGiven, match?, if_pos hn, if_pos (List.contains_iff_mem.2 hr)]
  exact Option.some_ne_none _

/-- A reference to an object that is not bound is read. -/
theorem referenceSeverity_given (h : IsReference source settings r o s)
    (ho : bound o = false) :
    referenceSeverity source settings (given bound) r = pure (some s) := by
  have hobject : (o.kind == "identifier" &&
      settings.diagnosticObjects.contains (o.node.text source)) = true := by
    rw [Bool.and_eq_true]
    exact ⟨beq_iff_eq.2 h.identifier, List.contains_iff_mem.2 h.diagnostic⟩
  rw [referenceSeverity, h.access]
  dsimp only
  rw [if_pos hobject, given, ho, pure_bind]
  rfl

/-- A reference of a severity that is not preserved may be removed. -/
theorem isRemovableReference_given (h : IsReference source settings r o s)
    (hs : s ∉ settings.preservedSeverities) (ho : bound o = false) :
    isRemovableReference source settings (given bound) r = pure true := by
  rw [isRemovableReference, referenceSeverity_given h ho, map_pure,
    isRemovableSeverity_eq_true.2 ⟨s, rfl, hs⟩]

/-- A call of a reference is read. -/
theorem callSeverity_given (hc : Calls source p r) (h : IsReference source settings r o s)
    (ho : bound o = false) :
    callSeverity source settings (given bound) p = pure (some s) := by
  rw [callSeverity, if_neg (not_not.2 hc.isCall)]
  cases hc with
  | direct _ hc =>
      rw [hc]
      dsimp only
      rw [referenceSeverity_given h ho, pure_bind]
  | @forwarded method hm hc =>
      obtain ⟨callee, hcallee, hacc⟩ := hc.callee
      -- The reference is an access and no name, so the callee is no reference itself.
      have hobject : ¬ (r.kind == "identifier" &&
          settings.diagnosticObjects.contains (r.node.text source)) = true := by
        rw [Bool.and_eq_true, beq_iff_eq]
        exact fun hr => h.not_identifier hr.1
      have hnone : referenceSeverity source settings (given bound) callee = pure none := by
        rw [referenceSeverity, hacc]
        dsimp only
        rw [if_neg hobject]
      rw [hcallee]
      dsimp only
      rw [hnone, pure_bind, hacc]
      dsimp only
      rw [if_pos (List.contains_iff_mem.2 hm), referenceSeverity_given h ho]

/-- A call of a severity that is not preserved may be removed. -/
theorem isRemovableCall_given (hc : Calls source p r) (h : IsReference source settings r o s)
    (hs : s ∉ settings.preservedSeverities) (ho : bound o = false) :
    isRemovableCall source settings (given bound) p = pure true := by
  rw [isRemovableCall, callSeverity_given hc h ho, map_pure,
    isRemovableSeverity_eq_true.2 ⟨s, rfl, hs⟩]

/-- A bind of a severity that is not preserved may be removed. -/
theorem isRemovableBind_given (hc : CallsMethod source p r "bind")
    (h : IsReference source settings r o s) (hs : s ∉ settings.preservedSeverities)
    (ho : bound o = false) :
    isRemovableBind source settings (given bound) p = pure true := by
  obtain ⟨callee, hcallee, hacc⟩ := hc.callee
  rw [isRemovableBind, if_neg (not_not.2 hc.isCall), hcallee, Option.bind_some, hacc]
  exact isRemovableReference_given h hs ho

/-- **Matching misses nothing** that is diagnostic by a name that is not bound and a severity that
is not preserved. -/
theorem matchGiven_ne_none_of_isDiagnostic (hr : .removeDiagnosticCall ∈ settings.rules)
    (h : IsDiagnostic source settings p o s) (hs : s ∉ settings.preservedSeverities)
    (ho : bound o = false) : matchGiven source settings bound p ≠ none := by
  have hcomment : ¬ isComment p.node = true :=
    Bool.eq_false_iff.1 (IsAbout.expression h).not_comment
  have hrule : ¬ (!settings.rules.contains .removeDiagnosticCall) = true := by
    rw [List.contains_iff_mem.2 hr]
    decide
  rw [matchGiven, match?, if_neg hcomment, if_neg hrule, if_neg h.not_statement]
  cases h with
  | call hc href =>
      rw [if_pos hc.isCall, isRemovableCall_given hc href hs ho, pure_bind]
      exact Option.some_ne_none _
  | bind hc href =>
      obtain ⟨answer, hanswer⟩ := exists_eq_pure (isRemovableCall source settings (given bound) p)
      rw [if_pos hc.isCall, hanswer, pure_bind, isRemovableBind_given hc href hs ho]
      cases answer <;> exact Option.some_ne_none _
  | detached href hv =>
      have hkinds : ∀ k ∈ accessKinds, k ≠ "call_expression" := by decide
      rw [if_neg (hkinds _ href.kind), if_pos (List.contains_iff_mem.2 href.kind),
        isDetachedReference, isRemovableReference_given href hs ho, pure_bind, hv]
      exact Option.some_ne_none _

/-- **Matching misses no node that the settings remove.** -/
theorem matchGiven_ne_none (h : IsRemovable source settings bound p) :
    matchGiven source settings bound p ≠ none := by
  have answers : ∀ {x : StateM Unit Bool} {b : Bool}, x = pure b → Answers x b := by
    rintro _ _ rfl
    exact ⟨(), rfl⟩
  rcases h with ⟨hcomment, hr⟩ | ⟨hr, hcall | hbind | hdetached⟩
  · exact matchGiven_ne_none_of_isComment hcomment hr
  · obtain ⟨r, o, s, hc, href, hs, ho⟩ := isRemovableCall_eq_true (answers hcall)
    exact matchGiven_ne_none_of_isDiagnostic hr (.call hc href) hs ho.pure.symm
  · obtain ⟨r, o, s, hc, href, hs, ho⟩ := isRemovableBind_eq_true (answers hbind)
    exact matchGiven_ne_none_of_isDiagnostic hr (.bind hc href) hs ho.pure.symm
  · obtain ⟨o, s, href, hv, hs, ho⟩ := isDetachedReference_eq_true (answers hdetached)
    exact matchGiven_ne_none_of_isDiagnostic hr (.detached href hv) hs ho.pure.symm

end

/-! ## The walk that collects edits -/

section
variable (source : Bytes) (settings : SanitizerSettings) (root : Node) (index : Scope.Index)

/-- The names that the index says are bound. -/
def boundBy (o : Place) : Bool := ((Scope.Index.isBound source o).run index).1

/-- From the index `index` on, the walk with a stack collects `edits` and leaves `after` behind. -/
structure Collects (edits : List RuleEdit) (after : Scope.Index) : Prop where
  collected :
    (collect source settings (Scope.Index.isBound source) root).run index = (edits, after)
  /-- So does the recursion over the tree. -/
  recursive :
    (collectFrom source settings (Scope.Index.isBound source) [] root).run index = (edits, after)
  outermost : AreOutermost (matchGiven source settings (boundBy source after)) root edits
  apart : edits.Pairwise fun a b => a.stop ≤ b.start
  covered : ∀ p ∈ Place.all root, p.node.start < p.node.stop →
    IsRemovable source settings (boundBy source after) p → ∃ e, around p.node edits = [e]
  /-- An index that only remembered, of a tree whose keys tell nodes apart, is right. -/
  right : Scope.KeysTell source root → Scope.Index.Sound source root index →
    ∀ o ∈ Place.all root, boundBy source after o = Scope.isBound source o

variable {source settings root index}

/-- An index that only remembered still does after a walk. -/
theorem sound_visitFrom (hkeys : Scope.KeysTell source root)
    (h : Scope.Index.Sound source root index) :
    Scope.Index.Sound source root
      ((visitFrom (match? source settings (Scope.Index.isBound source)) [] root).run index).2 :=
  (yields_visitFrom ⟨root, []⟩
    (fun _ hq => lockstep_match? (lockstep_agrees _) (agrees_afresh hkeys hq)) index h).2

variable (source settings index)

/-- **The walk that collects edits** finds the answers of the index that it leaves behind. -/
theorem collects_found (hroot : root.WellNested) {after : Scope.Index}
    (hafter : ((visitFrom (match? source settings (Scope.Index.isBound source)) [] root).run
      index).2 = after) :
    Collects source settings root index
      (found (matchGiven source settings (boundBy source after)) ⟨root, []⟩) after := by
  subst hafter
  set after :=
    ((visitFrom (match? source settings (Scope.Index.isBound source)) [] root).run index).2
  let answer := matchGiven source settings (boundBy source after)
  have hvisits : ((visitFrom (match? source settings (Scope.Index.isBound source)) [] root).run
      index).1 = walk answer ⟨root, []⟩ :=
    visitFrom_foretold index ⟨root, []⟩ fun q => lockstep_match? (lockstep_foretells _)
      fun o _ => (Scope.Index.recalls_isBound source o).foretells _
  have hapart : (found answer ⟨root, []⟩).Pairwise fun a b => a.stop ≤ b.start :=
    pairwise_found (p := ⟨root, []⟩) inPlace_matchGiven hroot
  have hrecursive : (collectFrom source settings (Scope.Index.isBound source) [] root).run index =
      (found answer ⟨root, []⟩, after) := by
    rw [collectFrom_eq, StateT.run_map, found, ← hvisits]
    rfl
  refine ⟨?_, hrecursive, areOutermost_found answer root, hapart, fun p hp hne h => ?_,
    fun hkeys hsound o ho => ?_⟩
  · rw [collect, collectStack_eq, visitEach_singleton, ← collectFrom_eq, StateT.run_bind,
      hrecursive]
    change (_, after) = _
    rw [mergeSort_found inPlace_matchGiven hroot]
  · exact exists_around_found inPlace_matchGiven hroot hp hne (matchGiven_ne_none h)
  · exact (Scope.Index.yields_isBound hkeys ho after (sound_visitFrom hkeys hsound)).1

/-- **Collecting finds the outermost matches**, from whatever index: by the stack as by recursion,
each once, in the order of the tree and apart from one another, with one edit around every node that
the settings remove. -/
theorem collect_outermost (hroot : root.WellNested) :
    ∃ edits after, Collects source settings root index edits after :=
  ⟨_, _, collects_found source settings index hroot rfl⟩

/-- A call and the comment behind it are collected, with one edit around the comment. -/
theorem collect_outermost_callThenComment :
    ∃ edits after,
      Collects (Text.encode "console.log(1); // x\nf\n") {} callThenComment {} edits after ∧
      ∃ e, around { kind := "comment", start := 16, stop := 20 } edits = [e] := by
  obtain ⟨edits, after, h⟩ := collect_outermost (Text.encode "console.log(1); // x\nf\n") {} {}
    (show callThenComment.WellNested by decide +kernel)
  have hcomment : Place.down ⟨callThenComment, []⟩ 1
      { kind := "comment", start := 16, stop := 20 } ∈ Place.all callThenComment :=
    Place.Below.mem_all (.child (Place.mem_children_iff.2 ⟨1, _, rfl, rfl⟩))
      (Place.mem_all_iff.2 (.inl rfl))
  exact ⟨edits, after, h, h.covered _ hcomment (by decide) (.inl ⟨rfl, by decide⟩)⟩

end

end ScriptScrub.Sanitizer
