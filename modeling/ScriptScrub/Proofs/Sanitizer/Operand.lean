import ScriptScrub.Proofs.Sanitizer.Idempotence

/-!
# What stands in the place of an expression

A call whose value is used becomes `void 0`, and a bind or a detached reference an empty function.
Which of the two a place gets depends on the node alone, if no place above it is removed
(`matchGiven_eq_void_iff`, `matchGiven_eq_function_iff`). So neither text is the whole of a
statement, and a reference that is replaced is never what an access or a call begins with. But a
call may be, or a word may go on right behind it, and then the `0` of `void 0` is the operand there
(`void_before_access`); and a function at the start of a statement is read as a declaration. The
texts keep their place in the expression exactly if no call, bind or reference that is replaced
stands so (`replacements_of_wellNested`).
-/

namespace ScriptScrub.Sanitizer

open Config (SanitizerSettings)

/-! ## Places -/

/-- An access of a member, or a call, begins with the node. -/
def IsHead (p : Place) : Prop :=
  ∃ q : Place, q.kind ∈ accessKinds ∧ q.child? "object" = some p ∨
    q.kind = "call_expression" ∧ q.child? "function" = some p

/-- The node is the target of an assignment. -/
def IsTarget (p : Place) : Prop :=
  ∃ q : Place, q.kind ∈ assignmentKinds ∧ q.child? "left" = some p

/-- A character of a word or a number, or a dot, follows the node directly. -/
def RunsOn (source : Bytes) (n : Node) : Prop :=
  ∃ c rest, (Text.decodeForgiving (source.drop n.stop)).toList = c :: rest ∧
    (c = '.' ∨ Script.isMark c = false)

/-- The node begins with the first byte of an expression statement around it. -/
def OpensStatement (p : Place) : Prop :=
  ∃ a ∈ p.ancestors, a.kind = "expression_statement" ∧ a.start = p.node.start

instance (p : Place) : Decidable (OpensStatement p) :=
  inferInstanceAs (Decidable (∃ a ∈ p.ancestors, _))

/-- The node is all that a statement consists of. -/
def IsWholeStatement (p : Place) : Prop :=
  ∃ q : Place, q.kind = "expression_statement" ∧ statementExpression? q = some p

/-- The parent of a place of a tree is a place of the tree. -/
theorem mem_all_of_mem_children {root : Node} {p q : Place} (hp : p ∈ Place.all root)
    (hpq : p ∈ q.children) : q ∈ Place.all root := by
  rcases Place.mem_all_iff.1 hp with rfl | hbelow
  · have hnone : (⟨root, []⟩ : Place).ancestors = [] := rfl
    rw [Place.ancestors_of_mem_children hpq] at hnone
    cases hnone
  · have hroot := (Place.below_iff_parent hpq).1 hbelow
    exact Place.mem_all_iff.2 (hroot.imp_left Eq.symm)

/-- What is used as a value is not the target of an assignment. -/
theorem not_isTarget_of_isValuePosition {p : Place} (hv : isValuePosition p = true) :
    ¬ IsTarget p := by
  rintro ⟨q, hkind, hleft⟩
  have hchild := mem_children_of_child? hleft
  exact ((isValuePosition_iff hchild).1 hv).2 ⟨hkind, (Place.fills_iff hchild).2 hleft⟩

/-! ## What asks for an edit -/

section
variable (source : Bytes) (settings : SanitizerSettings) (bound : Place → Bool)

/-- The node is a call, a bind or a detached reference that may be removed. -/
def IsRemovableValue (p : Place) : Prop :=
  isRemovableCall source settings (given bound) p = pure true ∨
    isRemovableBind source settings (given bound) p = pure true ∨
    isDetachedReference source settings (given bound) p = pure true

/-- The settings remove the statement at a place. -/
structure IsRemovableStatement (p : Place) : Prop where
  rule : .removeDiagnosticCall ∈ settings.rules
  kind : p.kind = "expression_statement"
  expression : ∃ x, statementExpression? p = some x ∧ IsRemovableValue source settings bound x

/-- Nothing above the place `p` of the tree is removed. -/
structure IsReached (root : Node) (p : Place) : Prop where
  mem : p ∈ Place.all root
  above : ∀ a ∈ Place.all root, a.Below p →
    ¬ IsRemovable source settings bound a ∧ ¬ IsRemovableStatement source settings bound a

variable {source settings bound} {p : Place} {e : RuleEdit}

/-- A computation that is a value answers it. -/
theorem answers_of_eq_pure {α : Type} {x : StateM Unit α} {a : α} (h : x = pure a) :
    Answers x a := by
  rw [h]
  exact ⟨(), rfl⟩

/-- What may be removed is diagnostic, by a name that is not bound and a severity that is not
preserved. -/
theorem IsRemovableValue.isDiagnostic (h : IsRemovableValue source settings bound p) :
    ∃ o s, IsDiagnostic source settings p o s ∧ s ∉ settings.preservedSeverities ∧
      bound o = false := by
  rcases h with h | h | h
  · obtain ⟨r, o, s, hc, hr, hs, ho⟩ := isRemovableCall_eq_true (answers_of_eq_pure h)
    exact ⟨o, s, .call hc hr, hs, ho.pure.symm⟩
  · obtain ⟨r, o, s, hc, hr, hs, ho⟩ := isRemovableBind_eq_true (answers_of_eq_pure h)
    exact ⟨o, s, .bind hc hr, hs, ho.pure.symm⟩
  · obtain ⟨o, s, hr, hv, hs, ho⟩ := isDetachedReference_eq_true (answers_of_eq_pure h)
    exact ⟨o, s, .detached hr hv, hs, ho.pure.symm⟩

/-- A reference that is used as a value may be removed if its severity is not preserved. -/
theorem isDetachedReference_given {o : Place} {s : String}
    (h : IsReference source settings p o s) (hv : isValuePosition p = true)
    (hs : s ∉ settings.preservedSeverities) (ho : bound o = false) :
    isDetachedReference source settings (given bound) p = pure true := by
  rw [isDetachedReference, isRemovableReference_given h hs ho, pure_bind, hv]
  rfl

/-- What is diagnostic by such a name and such a severity may be removed. -/
theorem isRemovableValue_of_isDiagnostic {o : Place} {s : String}
    (h : IsDiagnostic source settings p o s) (hs : s ∉ settings.preservedSeverities)
    (ho : bound o = false) : IsRemovableValue source settings bound p := by
  cases h with
  | call hc hr => exact .inl (isRemovableCall_given hc hr hs ho)
  | bind hc hr => exact .inr (.inl (isRemovableBind_given hc hr hs ho))
  | detached hr hv => exact .inr (.inr (isDetachedReference_given hr hv hs ho))

/-- An edit that is not that of a comment needs the rule for calls. -/
theorem rule_of_matchGiven (h : matchGiven source settings bound p = some e)
    (hn : isComment p.node = false) : .removeDiagnosticCall ∈ settings.rules := by
  by_contra hr
  rw [matchGiven, match?, if_neg (Bool.eq_false_iff.1 hn), if_pos (by simp [hr])] at h
  cases h

/-- An expression that may be removed is found to be worth nothing. -/
theorem IsRemovableValue.isRemovableExpression (h : IsRemovableValue source settings bound p) :
    isRemovableExpression source settings (given bound) p = pure true := by
  obtain ⟨a, ha⟩ := exists_eq_pure (isRemovableCall source settings (given bound) p)
  obtain ⟨b, hb⟩ := exists_eq_pure (isRemovableBind source settings (given bound) p)
  have hpure : ∀ {x y : Bool}, (pure x : StateM Unit Bool) = pure y → x = y := fun h =>
    congrArg (fun c : StateM Unit Bool => (c.run ()).1) h
  rw [IsRemovableValue, ha, hb] at h
  rw [Sanitizer.isRemovableExpression, ha, hb, pure_bind, pure_bind]
  rcases h with h | h | h
  · rw [if_pos (hpure h)]
  · cases a with
    | true => rfl
    | false => rw [if_neg (by decide), if_pos (hpure h)]
  · rw [h]
    cases a <;> cases b <;> rfl

/-- A removable expression asks for an edit. -/
theorem IsRemovableValue.isRemovable (h : IsRemovableValue source settings bound p)
    (hr : .removeDiagnosticCall ∈ settings.rules) : IsRemovable source settings bound p :=
  .inr ⟨hr, h⟩

/-- **What asks for an edit** is what the settings remove, and the statements that consist of such
an expression. -/
theorem matchGiven_eq_none_iff :
    matchGiven source settings bound p = none ↔
      ¬ IsRemovable source settings bound p ∧ ¬ IsRemovableStatement source settings bound p := by
  constructor
  · refine fun h => ⟨fun hremovable => matchGiven_ne_none hremovable h, ?_⟩
    rintro ⟨hr, hkind, x, hx, hvalue⟩
    obtain ⟨o, s, hd, -, -⟩ := hvalue.isDiagnostic
    have hn : isComment p.node = false := (IsAbout.statement hkind hx hd).not_comment
    rw [matchGiven, match?, if_neg (Bool.eq_false_iff.1 hn), if_neg (by simp [hr]), if_pos hkind,
      hx] at h
    dsimp only at h
    rw [hvalue.isRemovableExpression, pure_bind] at h
    cases h
  · rintro ⟨hremovable, hstatement⟩
    by_contra hne
    obtain ⟨e, he⟩ := Option.ne_none_iff_exists'.1 hne
    rcases (match?_eq_some ⟨(), he⟩).isAbout with ⟨hn, -⟩ | ⟨o, s, ⟨hs, ho⟩, habout⟩
    · refine hremovable (.inl ⟨hn, ?_⟩)
      by_contra hr
      rw [matchGiven, match?, if_pos hn, if_neg (by simp [hr])] at he
      cases he
    · have hr := rule_of_matchGiven he habout.not_comment
      cases habout with
      | expression hd =>
          exact hremovable ((isRemovableValue_of_isDiagnostic hd hs ho.pure.symm).isRemovable hr)
      | statement hkind hx hd =>
          exact hstatement
            ⟨hr, hkind, _, hx, isRemovableValue_of_isDiagnostic hd hs ho.pure.symm⟩

/-! ## Which text takes the place of a node -/

section
variable {ok : Place → String → Prop} {r o : Place} {s : String}

/-- A call that is matched becomes `void 0`. -/
theorem Match.eq_of_call (h : Match source settings ok p e) (hc : Calls source p r)
    (hr : IsReference source settings r o s) : e = diagnosticEdit p.node voidExpression := by
  cases h with
  | comment hn =>
      rw [(IsAbout.expression (.call hc hr)).not_comment] at hn
      cases hn
  | statement hp => exact absurd hp (IsDiagnostic.call hc hr).not_statement
  | call => rfl
  | bind hc' hr' => exact absurd hr' (hc.not_bind hr hc')
  | detached hr' => exact absurd hr'.kind hc.not_access

/-- A bind that is matched becomes an empty function. -/
theorem Match.eq_of_bind (h : Match source settings ok p e) (hc : CallsMethod source p r "bind")
    (hr : IsReference source settings r o s) : e = diagnosticEdit p.node emptyFunction := by
  cases h with
  | comment hn =>
      rw [(IsAbout.expression (.bind hc hr)).not_comment] at hn
      cases hn
  | statement hp => exact absurd hp (IsDiagnostic.bind hc hr).not_statement
  | call hc' hr' => exact absurd hr (hc'.not_bind hr' hc)
  | bind => rfl
  | detached hr' => exact absurd hr'.kind hc.not_access

/-- A reference that is matched becomes an empty function. -/
theorem Match.eq_of_detached (h : Match source settings ok p e)
    (hr : IsReference source settings p o s) (hv : isValuePosition p = true) :
    e = diagnosticEdit p.node emptyFunction := by
  cases h with
  | comment hn =>
      rw [(IsAbout.expression (.detached hr hv)).not_comment] at hn
      cases hn
  | statement hp => exact absurd hp (IsDiagnostic.detached hr hv).not_statement
  | call hc => exact absurd hr.kind hc.not_access
  | bind hc => exact absurd hr.kind hc.not_access
  | detached => rfl

/-- What becomes `void 0` is a call. -/
theorem Match.call_of_eq (h : Match source settings ok p e)
    (he : e.replacement = voidExpression) :
    ∃ r o s, Calls source p r ∧ IsReference source settings r o s ∧ ok o s := by
  cases h with
  | comment => exact absurd he (by decide : "" ≠ voidExpression)
  | statement =>
      have hne : (if inStatementList p then "" else emptyBlock) ≠ voidExpression := by
        split <;> decide
      exact absurd he hne
  | call hc hr ho => exact ⟨_, _, _, hc, hr, ho⟩
  | bind | detached => exact absurd he (by decide : emptyFunction ≠ voidExpression)

/-- What becomes an empty function is a bind or a reference that is used as a value. -/
theorem Match.function_of_eq (h : Match source settings ok p e)
    (he : e.replacement = emptyFunction) :
    (∃ r o s, CallsMethod source p r "bind" ∧ IsReference source settings r o s ∧ ok o s) ∨
      ∃ o s, IsReference source settings p o s ∧ isValuePosition p = true ∧ ok o s := by
  cases h with
  | comment => exact absurd he (by decide : "" ≠ emptyFunction)
  | statement =>
      have hne : (if inStatementList p then "" else emptyBlock) ≠ emptyFunction := by
        split <;> decide
      exact absurd he hne
  | call => exact absurd he (by decide : voidExpression ≠ emptyFunction)
  | bind hc hr ho => exact .inl ⟨_, _, _, hc, hr, ho⟩
  | detached hr hv ho => exact .inr ⟨_, _, hr, hv, ho⟩

end

/-- **Calls become `void 0`**, and nothing else does. -/
theorem matchGiven_eq_void_iff :
    matchGiven source settings bound p = some (diagnosticEdit p.node voidExpression) ↔
      .removeDiagnosticCall ∈ settings.rules ∧
        isRemovableCall source settings (given bound) p = pure true := by
  constructor
  · intro he
    obtain ⟨r, o, s, hc, hr, hs, ho⟩ := (match?_eq_some ⟨(), he⟩).call_of_eq rfl
    exact ⟨rule_of_matchGiven he (IsAbout.expression (.call hc hr)).not_comment,
      isRemovableCall_given hc hr hs ho.pure.symm⟩
  · rintro ⟨hrule, h⟩
    obtain ⟨e, he⟩ := Option.ne_none_iff_exists'.1 (matchGiven_ne_none (.inr ⟨hrule, .inl h⟩))
    obtain ⟨r, o, s, hc, hr, -, -⟩ := isRemovableCall_eq_true (answers_of_eq_pure h)
    rw [he, (match?_eq_some ⟨(), he⟩).eq_of_call hc hr]

/-- **Binds and detached references become empty functions**, and nothing else does. -/
theorem matchGiven_eq_function_iff :
    matchGiven source settings bound p = some (diagnosticEdit p.node emptyFunction) ↔
      .removeDiagnosticCall ∈ settings.rules ∧
        (isRemovableBind source settings (given bound) p = pure true ∨
          isDetachedReference source settings (given bound) p = pure true) := by
  constructor
  · intro he
    rcases (match?_eq_some ⟨(), he⟩).function_of_eq rfl with
      ⟨r, o, s, hc, hr, hs, ho⟩ | ⟨o, s, hr, hv, hs, ho⟩
    · exact ⟨rule_of_matchGiven he (IsAbout.expression (.bind hc hr)).not_comment,
        .inl (isRemovableBind_given hc hr hs ho.pure.symm)⟩
    · exact ⟨rule_of_matchGiven he (IsAbout.expression (.detached hr hv)).not_comment,
        .inr (isDetachedReference_given hr hv hs ho.pure.symm)⟩
  · rintro ⟨hrule, h⟩
    obtain ⟨e, he⟩ := Option.ne_none_iff_exists'.1 (matchGiven_ne_none (.inr ⟨hrule, .inr h⟩))
    have hmatch := match?_eq_some ⟨(), he⟩
    rw [he]
    rcases h with h | h
    · obtain ⟨r, o, s, hc, hr, -, -⟩ := isRemovableBind_eq_true (answers_of_eq_pure h)
      rw [hmatch.eq_of_bind hc hr]
    · obtain ⟨o, s, hr, hv, -, -⟩ := isDetachedReference_eq_true (answers_of_eq_pure h)
      rw [hmatch.eq_of_detached hr hv]

end

/-! ## The replacements of a tree -/

section
variable (source : Bytes) (settings : SanitizerSettings) (root : Node)

/-- The text takes the place of the node at `p`. -/
def IsReplaced (p : Place) (text : String) : Prop :=
  Matched source settings root p (diagnosticEdit p.node text)

/-- What is put in the place of an expression stays one operand where it stands: no access and no
call begins with `void 0`, no word and no number goes on behind it, and no empty function stands
where a statement begins. -/
structure OperandsKept : Prop where
  void : ∀ p, IsReplaced source settings root p voidExpression →
    ¬ IsHead p ∧ ¬ RunsOn source p.node
  function : ∀ p, IsReplaced source settings root p emptyFunction → ¬ OpensStatement p

/-- What takes the place of the nodes of a tree, told by the names that are bound after the index
`after`. -/
structure Replacements (after : Scope.Index) : Prop where
  /-- The edits of the rule for calls are the replacements. -/
  edits : ∀ e, e ∈ editsOf source settings root ∧ e.rule = .removeDiagnosticCall ↔
    ∃ p text, IsReplaced source settings root p text ∧ e = diagnosticEdit p.node text
  void : ∀ p, IsReplaced source settings root p voidExpression ↔
    IsReached source settings (boundBy source after) root p ∧
      .removeDiagnosticCall ∈ settings.rules ∧
        isRemovableCall source settings (given (boundBy source after)) p = pure true
  function : ∀ p, IsReplaced source settings root p emptyFunction ↔
    IsReached source settings (boundBy source after) root p ∧
      .removeDiagnosticCall ∈ settings.rules ∧
        (isRemovableBind source settings (given (boundBy source after)) p = pure true ∨
          isDetachedReference source settings (given (boundBy source after)) p = pure true)
  /-- Neither text is the whole of a statement. -/
  part : ∀ p, IsReplaced source settings root p voidExpression ∨
    IsReplaced source settings root p emptyFunction → ¬ IsWholeStatement p
  /-- A reference that is replaced is used as a value. -/
  value : ∀ p, IsReplaced source settings root p emptyFunction → p.kind ∈ accessKinds →
    ¬ IsHead p ∧ ¬ IsTarget p
  /-- The replacements stay one operand exactly if no call that is replaced begins an access or a
  call or runs on, and no bind or reference that is replaced opens a statement. -/
  kept : OperandsKept source settings root ↔
    ∀ p, IsReached source settings (boundBy source after) root p →
      .removeDiagnosticCall ∈ settings.rules →
      (isRemovableCall source settings (given (boundBy source after)) p = pure true →
        ¬ IsHead p ∧ ¬ RunsOn source p.node) ∧
      (isRemovableBind source settings (given (boundBy source after)) p = pure true ∨
        isDetachedReference source settings (given (boundBy source after)) p = pure true →
          ¬ OpensStatement p)

variable {source settings root} {p : Place} {after : Scope.Index}

/-- An edit of the rule for calls is a replacement. -/
theorem Match.eq_diagnosticEdit {ok : Place → String → Prop} {e : RuleEdit}
    (h : Match source settings ok p e) (hr : e.rule = .removeDiagnosticCall) :
    e = diagnosticEdit p.node e.replacement := by
  cases h with
  | comment => cases hr
  | statement | call | bind | detached => rfl

/-- The edits of the rule for calls are the replacements. -/
theorem mem_editsOf_iff_isReplaced {e : RuleEdit} :
    e ∈ editsOf source settings root ∧ e.rule = .removeDiagnosticCall ↔
      ∃ p text, IsReplaced source settings root p text ∧ e = diagnosticEdit p.node text := by
  constructor
  · rintro ⟨he, hr⟩
    obtain ⟨p, hp⟩ := mem_editsOf_iff.1 he
    have heq := hp.match.eq_diagnosticEdit hr
    refine ⟨p, e.replacement, ?_, heq⟩
    rwa [IsReplaced, ← heq]
  · rintro ⟨p, text, hp, rfl⟩
    exact ⟨mem_editsOf_iff.2 ⟨p, hp⟩, rfl⟩

/-- The walk that collects the edits is one with the answers of the index that it leaves behind. -/
theorem Collects.visits_eq
    (h : Collects source settings root {} (editsOf source settings root) after) :
    visits source settings root =
      walk (matchGiven source settings (boundBy source after)) ⟨root, []⟩ := by
  have hafter := congrArg Prod.snd h.recursive
  rw [collectFrom_eq, StateT.run_map] at hafter
  have hleft : ((visitFrom (match? source settings (Scope.Index.isBound source)) [] root).run
      {}).2 = after := hafter
  rw [← hleft]
  exact visitFrom_foretold {} ⟨root, []⟩ fun q => lockstep_match? (lockstep_foretells _)
    fun o _ => (Scope.Index.recalls_isBound source o).foretells _

variable (source settings) in
/-- The edits of a well-nested tree are collected by the walk that leaves some index behind. -/
theorem exists_collects (hroot : root.WellNested) :
    ∃ after, Collects source settings root {} (editsOf source settings root) after := by
  have h := collects_found source settings {} hroot rfl
  have hedits : editsOf source settings root = _ := congrArg Prod.fst h.collected
  rw [hedits]
  exact ⟨_, h⟩

/-- **A node is replaced** if it asks for it and nothing above it is removed. -/
theorem Collects.isReplaced_iff
    (h : Collects source settings root {} (editsOf source settings root) after) {text : String} :
    IsReplaced source settings root p text ↔
      IsReached source settings (boundBy source after) root p ∧
        matchGiven source settings (boundBy source after) p =
          some (diagnosticEdit p.node text) := by
  rw [IsReplaced, matched_iff h.visits_eq]
  simp only [matchGiven_eq_none_iff]
  constructor
  · rintro ⟨hp, hmatch, habove⟩
    exact ⟨⟨hp, habove⟩, hmatch⟩
  · rintro ⟨⟨hp, habove⟩, hmatch⟩
    exact ⟨hp, hmatch, habove⟩

variable {bound : Place → Bool}

/-- What is reached and may be removed is not the whole of a statement: the statement would be
removed. -/
theorem IsReached.not_isWholeStatement (h : IsReached source settings bound root p)
    (hr : .removeDiagnosticCall ∈ settings.rules) (hp : IsRemovableValue source settings bound p) :
    ¬ IsWholeStatement p := by
  rintro ⟨q, hkind, hwhole⟩
  have hchild := mem_children_of_statementExpression? hwhole
  exact (h.above q (mem_all_of_mem_children h.mem hchild) (.child hchild)).2
    ⟨hr, hkind, p, hwhole, hp⟩

/-- A detached reference that is reached begins no access, as it is used as a value, and no call, as
the call would be replaced. -/
theorem IsReached.not_isHead (h : IsReached source settings bound root p)
    (hr : .removeDiagnosticCall ∈ settings.rules)
    (hp : isDetachedReference source settings (given bound) p = pure true) :
    ¬ IsHead p ∧ ¬ IsTarget p := by
  obtain ⟨o, s, href, hv, hs, ho⟩ := isDetachedReference_eq_true (answers_of_eq_pure hp)
  constructor
  · rintro ⟨q, ⟨hkind, hobject⟩ | ⟨hkind, hfunction⟩⟩
    · have hchild := mem_children_of_child? hobject
      exact ((isValuePosition_iff hchild).1 hv).1 ⟨hkind, (Place.fills_iff hchild).2 hobject⟩
    · have hchild := mem_children_of_child? hfunction
      have hcall := isRemovableCall_given (.direct hkind hfunction) href hs ho.pure.symm
      exact (h.above q (mem_all_of_mem_children h.mem hchild) (.child hchild)).1
        (IsRemovableValue.isRemovable (.inl hcall) hr)
  · exact not_isTarget_of_isValuePosition hv

variable (source settings)

/-- **What takes the place of an expression.** In a well-nested tree a call becomes `void 0`, and a
bind or a detached reference an empty function, exactly if nothing above it is removed. Neither text
is a whole statement, and no reference that is replaced begins an access or a call or is assigned
to. But whatever a call begins, or runs on into, and wherever a bind or a reference stands, it is
replaced: so all of them stay one operand exactly if none of those that are replaced stands where
its text does not. -/
theorem replacements_of_wellNested (hroot : root.WellNested) :
    ∃ after, Collects source settings root {} (editsOf source settings root) after ∧
      Replacements source settings root after := by
  obtain ⟨after, h⟩ := exists_collects source settings hroot
  have hvoid : ∀ p, IsReplaced source settings root p voidExpression ↔
      IsReached source settings (boundBy source after) root p ∧
        .removeDiagnosticCall ∈ settings.rules ∧
          isRemovableCall source settings (given (boundBy source after)) p = pure true :=
    fun p => h.isReplaced_iff.trans (and_congr_right fun _ => matchGiven_eq_void_iff)
  have hfunction : ∀ p, IsReplaced source settings root p emptyFunction ↔
      IsReached source settings (boundBy source after) root p ∧
        .removeDiagnosticCall ∈ settings.rules ∧
          (isRemovableBind source settings (given (boundBy source after)) p = pure true ∨
            isDetachedReference source settings (given (boundBy source after)) p = pure true) :=
    fun p => h.isReplaced_iff.trans (and_congr_right fun _ => matchGiven_eq_function_iff)
  refine ⟨after, h, fun e => mem_editsOf_iff_isReplaced, hvoid, hfunction, ?_, ?_, ?_⟩
  · rintro p (hp | hp)
    · obtain ⟨hreached, hr, hcall⟩ := (hvoid p).1 hp
      exact hreached.not_isWholeStatement hr (.inl hcall)
    · obtain ⟨hreached, hr, hvalue⟩ := (hfunction p).1 hp
      exact hreached.not_isWholeStatement hr (.inr hvalue)
  · intro p hp hkind
    obtain ⟨hreached, hr, hbind | hdetached⟩ := (hfunction p).1 hp
    · obtain ⟨r, o, s, hc, -⟩ := isRemovableBind_eq_true (answers_of_eq_pure hbind)
      exact absurd hkind hc.not_access
    · exact hreached.not_isHead hr hdetached
  · constructor
    · rintro ⟨hkeptVoid, hkeptFunction⟩ p hreached hr
      exact ⟨fun hcall => hkeptVoid p ((hvoid p).2 ⟨hreached, hr, hcall⟩),
        fun hvalue => hkeptFunction p ((hfunction p).2 ⟨hreached, hr, hvalue⟩)⟩
    · refine fun hkept => ⟨fun p hp => ?_, fun p hp => ?_⟩
      · obtain ⟨hreached, hr, hcall⟩ := (hvoid p).1 hp
        exact (hkept p hreached hr).1 hcall
      · obtain ⟨hreached, hr, hvalue⟩ := (hfunction p).1 hp
        exact (hkept p hreached hr).2 hvalue

end

/-! ## Scripts -/

/-- The place is one of a tree whose nodes are told apart, it asks to be replaced by the text, and
no place less deep asks for anything. -/
def AsksAt (source : Bytes) (root : Node) (p : Place) (text : String) : Prop :=
  root.WellNested ∧ Scope.KeysTell source root ∧
    fresh source {} p = some (diagnosticEdit p.node text) ∧
    ∀ r ∈ Place.all root, r.above.length < p.above.length → fresh source {} r = none

instance (source : Bytes) (root : Node) (p : Place) (text : String) :
    Decidable (AsksAt source root p text) :=
  inferInstanceAs (Decidable (_ ∧ _))

/-- A place that asks for it first is replaced. -/
theorem AsksAt.isReplaced {source : Bytes} {root : Node} {p : Place} {text : String}
    (h : AsksAt source root p text) (hp : p ∈ Place.all root) :
    IsReplaced source {} root p text := by
  obtain ⟨-, hkeys, hasks, habove⟩ := h
  exact (matched_iff (visits_eq_fresh hkeys)).2
    ⟨hp, hasks, fun r hr hbelow => habove r hr hbelow.length_lt⟩

/-- The source of `a && console.log(1);`. -/
def guardedCall : Bytes := Text.encode "a && console.log(1);\n"

/-- The tree of `guardedCall`. -/
def guardedTree : Node := treeOf "a && console.log(1);\n"

/-- The place of the call in `guardedCall`. -/
def guardedPlace : Place := Place.follow ⟨guardedTree, []⟩ [0, 0, 2]

/-- The second operand of a conjunction becomes `void 0`, and is no statement. -/
theorem replacements_of_wellNested_guardedCall :
    guardedTree.WellNested ∧
      ∃ after, Replacements guardedCall {} guardedTree after ∧
        isRemovableCall guardedCall {} (given (boundBy guardedCall after)) guardedPlace =
          pure true ∧
        ¬ IsWholeStatement guardedPlace := by
  have hasks : AsksAt guardedCall guardedTree guardedPlace voidExpression := by decide +kernel
  have hreplaced := hasks.isReplaced (Place.follow_mem_preorder _ _)
  obtain ⟨after, -, h⟩ := replacements_of_wellNested guardedCall {} hasks.1
  exact ⟨hasks.1, after, h, ((h.void guardedPlace).1 hreplaced).2.2,
    h.part guardedPlace (.inl hreplaced)⟩

/-- The source of `console.log(1).foo;`. -/
def accessedCall : Bytes := Text.encode "console.log(1).foo;\n"

/-- The tree of `accessedCall`. -/
def accessedTree : Node := treeOf "console.log(1).foo;\n"

/-- The place of the access in `accessedCall`. -/
def accessPlace : Place := Place.follow ⟨accessedTree, []⟩ [0, 0]

/-- The place of the call in `accessedCall`, of which a member is accessed. -/
def accessedPlace : Place := (accessPlace.child? "object").getD default

/-- The source of `console.log, x;`. -/
def openingReference : Bytes := Text.encode "console.log, x;\n"

/-- The tree of `openingReference`. -/
def openingTree : Node := treeOf "console.log, x;\n"

/-- The place of the reference in `openingReference`. -/
def openingPlace : Place := Place.follow ⟨openingTree, []⟩ [0, 0, 0]

/-- **A text does not stay one operand**: the call that an access begins with becomes `void 0`, so
that the script is none any more; and the reference that a statement begins with becomes a function
there. -/
theorem void_before_access :
    (accessedTree.WellNested ∧ accessedPlace.kind = "call_expression" ∧ IsHead accessedPlace ∧
      IsReplaced accessedCall {} accessedTree accessedPlace voidExpression ∧
      ¬ OperandsKept accessedCall {} accessedTree ∧
      editsOf accessedCall {} accessedTree =
        [⟨⟨0, 14, voidExpression⟩, .removeDiagnosticCall⟩] ∧
      Edit.spliced? accessedCall ((editsOf accessedCall {} accessedTree).map (·.toEdit)) =
        some (Text.encode "void 0.foo;\n") ∧
      (Script.grammar.parse "a.js" accessedCall).isOk = true ∧
      (Script.grammar.parse "a.js" (Text.encode "void 0.foo;\n")).isOk = false) ∧
    (openingTree.WellNested ∧ OpensStatement openingPlace ∧
      IsReplaced openingReference {} openingTree openingPlace emptyFunction ∧
      ¬ OperandsKept openingReference {} openingTree) := by
  have haccess : AsksAt accessedCall accessedTree accessedPlace voidExpression ∧
      accessPlace.kind ∈ accessKinds ∧ (accessPlace.child? "object").isSome = true ∧
      accessedPlace.kind = "call_expression" ∧
      found (fresh accessedCall {}) ⟨accessedTree, []⟩ =
        [⟨⟨0, 14, voidExpression⟩, .removeDiagnosticCall⟩] ∧
      (Script.grammar.parse "a.js" accessedCall).isOk = true := by decide +kernel
  obtain ⟨hasks, haccess, hsome, hcall, hfound, hparsed⟩ := haccess
  have hobject : accessPlace.child? "object" = some accessedPlace :=
    (Option.eq_some_of_isSome hsome).trans (congrArg some (Option.get_eq_getD _))
  have hhead : IsHead accessedPlace := ⟨accessPlace, .inl ⟨haccess, hobject⟩⟩
  have hreplaced := hasks.isReplaced
    ((Place.Below.child (mem_children_of_child? hobject)).mem_all (Place.follow_mem_preorder _ _))
  have hedits : editsOf accessedCall {} accessedTree =
      [⟨⟨0, 14, voidExpression⟩, .removeDiagnosticCall⟩] := by
    rw [editsOf_eq_fresh hasks.1 hasks.2.1, hfound]
  have hopening : AsksAt openingReference openingTree openingPlace emptyFunction ∧
      OpensStatement openingPlace := by decide +kernel
  have hreplaced' := hopening.1.isReplaced (Place.follow_mem_preorder _ _)
  refine ⟨⟨hasks.1, hcall, hhead, hreplaced, fun hkept => (hkept.void _ hreplaced).1 hhead, hedits,
    ?_, hparsed, by decide +kernel⟩, hopening.1.1, hopening.2, hreplaced',
    fun hkept => hkept.function _ hreplaced' hopening.2⟩
  rw [hedits]
  decide +kernel

end ScriptScrub.Sanitizer
