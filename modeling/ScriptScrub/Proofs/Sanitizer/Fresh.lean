import ScriptScrub.Proofs.Sanitizer.Collected
import ScriptScrub.Proofs.Scope.Lookup

/-!
# Matching without an index

Matching runs alike wherever looking names up does (`lockstep_match?`). So where the index only
remembers what it would compute, matching that looks every name up afresh agrees with matching that
asks the index, and so do the walks. The edits of a tree are then those that a walk finds which
needs no state at all (`editsOf_eq_fresh`).
-/

namespace ScriptScrub.Sanitizer

open Config (SanitizerSettings)

/-! ## Matching -/

section
variable {source : Bytes}

/-- The child that fills a field is a child. -/
theorem mem_children_of_child? {p c : Place} {field : String} (h : p.child? field = some c) :
    c ∈ p.children :=
  List.mem_of_find?_eq_some h

/-- The object of an access is a child. -/
theorem mem_children_of_access? {p o : Place} {name : String}
    (h : access? source p = some (o, name)) : o ∈ p.children := by
  unfold access? at h
  split at h
  · simp only [Option.bind_eq_bind, Option.bind_eq_some_iff] at h
    obtain ⟨object, hobject, property, -, h⟩ := h
    split at h
    · cases h
      exact mem_children_of_child? hobject
    · cases h
  split at h
  · simp only [Option.bind_eq_bind, Option.bind_eq_some_iff] at h
    obtain ⟨object, hobject, index, -, h⟩ := h
    split at h
    · cases h
      exact mem_children_of_child? hobject
    · cases h
  · cases h

/-- The expression of a statement is a child. -/
theorem mem_children_of_statementExpression? {p x : Place} (h : statementExpression? p = some x) :
    x ∈ p.children := by
  unfold statementExpression? at h
  split at h
  · next hlist =>
    cases h
    have hmem : x ∈ p.namedChildren.filter fun c => !isComment c.node := by
      rw [hlist]
      exact List.mem_singleton_self x
    exact List.mem_of_mem_filter (List.mem_of_mem_filter hmem)
  · cases h

variable {settings : SanitizerSettings} {m m' : Type → Type} [Monad m] [Monad m']
variable {R : (α : Type) → m α → m' α → Prop} (hR : Lockstep R)
variable {bound : Place → m Bool} {bound' : Place → m' Bool}

include hR

/-- References are read alike. -/
theorem lockstep_referenceSeverity {p : Place} (hb : ∀ o, p.Below o → R _ (bound o) (bound' o)) :
    R _ (referenceSeverity source settings bound p)
      (referenceSeverity source settings bound' p) := by
  unfold referenceSeverity
  cases hacc : access? source p with
  | none => exact hR.pure none
  | some access =>
      dsimp only
      split
      · refine hR.bind (hb _ (.child (mem_children_of_access? hacc))) fun b => ?_
        cases b <;> exact hR.pure _
      · exact hR.pure none

/-- Calls are read alike. -/
theorem lockstep_callSeverity {p : Place} (hb : ∀ o, p.Below o → R _ (bound o) (bound' o)) :
    R _ (callSeverity source settings bound p) (callSeverity source settings bound' p) := by
  unfold callSeverity
  split
  · exact hR.pure none
  cases hc : p.child? "function" with
  | none => exact hR.pure none
  | some callee =>
      have hbelow : p.Below callee := .child (mem_children_of_child? hc)
      dsimp only
      refine hR.bind (lockstep_referenceSeverity hR fun o ho => hb o (hbelow.trans ho))
        fun severity => ?_
      cases severity with
      | some severity => exact hR.pure _
      | none =>
          cases hacc : access? source callee with
          | none => exact hR.pure none
          | some access =>
              have hobject : p.Below access.1 := .deeper hbelow (mem_children_of_access? hacc)
              dsimp only
              split
              · exact lockstep_referenceSeverity hR fun o ho => hb o (hobject.trans ho)
              · exact hR.pure none

variable [LawfulMonad m] [LawfulMonad m']

/-- References that may be removed are told alike. -/
theorem lockstep_isRemovableReference {p : Place}
    (hb : ∀ o, p.Below o → R _ (bound o) (bound' o)) :
    R _ (isRemovableReference source settings bound p)
      (isRemovableReference source settings bound' p) :=
  hR.map _ (lockstep_referenceSeverity hR hb)

/-- Calls that may be removed are told alike. -/
theorem lockstep_isRemovableCall {p : Place} (hb : ∀ o, p.Below o → R _ (bound o) (bound' o)) :
    R _ (isRemovableCall source settings bound p)
      (isRemovableCall source settings bound' p) :=
  hR.map _ (lockstep_callSeverity hR hb)

/-- Binds that may be removed are told alike. -/
theorem lockstep_isRemovableBind {p : Place} (hb : ∀ o, p.Below o → R _ (bound o) (bound' o)) :
    R _ (isRemovableBind source settings bound p)
      (isRemovableBind source settings bound' p) := by
  unfold isRemovableBind
  split
  · exact hR.pure false
  split
  · next object hacc =>
    obtain ⟨callee, hc, hacc⟩ := Option.bind_eq_some_iff.1 hacc
    have hbelow : p.Below object :=
      .deeper (.child (mem_children_of_child? hc)) (mem_children_of_access? hacc)
    exact lockstep_isRemovableReference hR fun o ho => hb o (hbelow.trans ho)
  · exact hR.pure false

/-- Detached references are told alike. -/
theorem lockstep_isDetachedReference {p : Place}
    (hb : ∀ o, p.Below o → R _ (bound o) (bound' o)) :
    R _ (isDetachedReference source settings bound p)
      (isDetachedReference source settings bound' p) := by
  refine hR.bind (lockstep_isRemovableReference hR hb) fun removable => ?_
  cases removable <;> exact hR.pure _

/-- Expressions that may be removed are told alike. -/
theorem lockstep_isRemovableExpression {p : Place}
    (hb : ∀ o, p.Below o → R _ (bound o) (bound' o)) :
    R _ (isRemovableExpression source settings bound p)
      (isRemovableExpression source settings bound' p) := by
  refine hR.bind (lockstep_isRemovableCall hR hb) fun isCall => ?_
  cases isCall with
  | true => exact hR.pure true
  | false =>
      refine hR.bind (lockstep_isRemovableBind hR hb) fun isBind => ?_
      cases isBind with
      | true => exact hR.pure true
      | false => exact lockstep_isDetachedReference hR hb

/-- **Matching runs alike** where looking names up below the place does. -/
theorem lockstep_match? {p : Place} (hb : ∀ o, p.Below o → R _ (bound o) (bound' o)) :
    R _ (match? source settings bound p) (match? source settings bound' p) := by
  unfold match?
  dsimp only
  split
  · split <;> exact hR.pure _
  split
  · exact hR.pure none
  split
  · cases hx : statementExpression? p with
    | none => exact hR.pure none
    | some x =>
        have hbelow : p.Below x := .child (mem_children_of_statementExpression? hx)
        refine hR.bind (lockstep_isRemovableExpression hR fun o ho => hb o (hbelow.trans ho))
          fun removable => ?_
        cases removable <;> exact hR.pure _
  split
  · refine hR.bind (lockstep_isRemovableCall hR hb) fun isCall => ?_
    cases isCall with
    | true => exact hR.pure _
    | false =>
        refine hR.bind (lockstep_isRemovableBind hR hb) fun isBind => ?_
        cases isBind <;> exact hR.pure _
  split
  · refine hR.bind (lockstep_isDetachedReference hR hb) fun isDetached => ?_
    cases isDetached <;> exact hR.pure _
  · exact hR.pure none

end

/-! ## Walking -/

/-- A walk whose questions yield fixed answers yields the walk with these answers. -/
theorem yields_visitFrom {σ α : Type} {I : σ → Prop} {ask : Place → StateM σ (Option α)}
    {answer : Place → Option α} (p : Place)
    (h : ∀ q ∈ p.preorder, Yields I (ask q) (answer q)) :
    Yields I (visitFrom ask p.above p.node) (walk answer p) := by
  induction p using Place.induct with
  | step p ih =>
    have each : ∀ cs : List Place, (∀ c ∈ cs, c ∈ p.children) →
        Yields I (visitEach ask cs) (cs.flatMap (walk answer)) := by
      intro cs
      induction cs with
      | nil => exact fun _ => .pure []
      | cons c cs ihs =>
          intro hcs
          have hc := hcs c List.mem_cons_self
          have hrest := ihs fun d hd => hcs d (List.mem_cons_of_mem _ hd)
          have hfirst := ih c hc fun q hq =>
            h q (Place.mem_preorder_iff.2 (.inr
              (Place.below_iff_child.2 ⟨c, hc, Place.mem_preorder_iff.1 hq⟩)))
          exact .bind hfirst (.bind hrest (.pure _))
    rw [visitFrom_eq, walk_eq]
    refine .bind (h p (Place.mem_preorder_iff.2 (.inl rfl))) ?_
    cases answer p with
    | some a => exact .pure _
    | none => exact .bind (each p.children fun _ hc => hc) (.pure _)

/-! ## The edits of a tree -/

section
variable (source : Bytes) (settings : SanitizerSettings)

/-- Looking a name up without an index. -/
def afresh (o : Place) : StateM Unit Bool := pure (Scope.isBound source o)

/-- The edit that a place asks for if names are looked up afresh. -/
def fresh (p : Place) : Option RuleEdit := ((match? source settings (afresh source) p).run ()).1

/-- The severity of a call if names are looked up afresh. -/
def freshSeverity (p : Place) : Option String :=
  ((callSeverity source settings (afresh source) p).run ()).1

/-- What is matched afresh is an answer of matching. -/
theorem answers_fresh (p : Place) :
    Answers (match? source settings (afresh source) p) (fresh source settings p) :=
  ⟨(), rfl⟩

variable {source settings} {root : Node}

/-- Below a place of the tree, the index answers what looking up afresh answers. -/
theorem agrees_afresh (hkeys : Scope.KeysTell source root) {p : Place} (hp : p ∈ Place.all root)
    (o : Place) (ho : p.Below o) :
    Agrees (Scope.Index.Sound source root) Bool (Scope.Index.isBound source o) (afresh source o) :=
  Scope.Index.yields_isBound hkeys (ho.mem_all hp)

/-- A severity that is read afresh is an answer of reading it. -/
theorem answers_freshSeverity (hkeys : Scope.KeysTell source root) {p : Place}
    (hp : p ∈ Place.all root) :
    Answers (callSeverity source settings (Scope.Index.isBound source) p)
      (freshSeverity source settings p) :=
  ⟨{}, (lockstep_callSeverity (lockstep_agrees _) (agrees_afresh hkeys hp) {}
    Scope.Index.sound_empty).1⟩

/-- Edits that are matched afresh cover their nodes. -/
theorem inPlace_fresh : InPlace (fresh source settings) := fun q _ he =>
  (match?_eq_some (he ▸ answers_fresh source settings q)).range

/-- **The walk that collects edits** is one without a state if keys tell nodes apart. -/
theorem visits_eq_fresh (hkeys : Scope.KeysTell source root) :
    visits source settings root = walk (fresh source settings) ⟨root, []⟩ := by
  refine ((yields_visitFrom (I := Scope.Index.Sound source root) ⟨root, []⟩ fun q hq => ?_) {}
    Scope.Index.sound_empty).1
  exact lockstep_match? (lockstep_agrees _) (agrees_afresh hkeys hq)

/-- **The edits of a tree** are those that are found without a state if keys tell nodes apart. -/
theorem editsOf_eq_fresh (hroot : root.WellNested) (hkeys : Scope.KeysTell source root) :
    editsOf source settings root = found (fresh source settings) ⟨root, []⟩ :=
  editsOf_eq_found hroot inPlace_fresh (visits_eq_fresh hkeys)

/-- A place that asks for no edit afresh is not matched. -/
theorem not_matched_of_fresh (hkeys : Scope.KeysTell source root) {p : Place}
    (h : fresh source settings p = none) (e : RuleEdit) : ¬ Matched source settings root p e := by
  intro hmatched
  have := ((matched_iff (visits_eq_fresh hkeys)).1 hmatched).2.1
  rw [h] at this
  cases this

/-- **A tree has no edits** exactly if no place of it asks for one afresh. -/
theorem editsOf_eq_nil_iff (hkeys : Scope.KeysTell source root) :
    editsOf source settings root = [] ↔
      ∀ p ∈ Place.all root, fresh source settings p = none := by
  constructor
  · intro hnil p hp
    have hnone : ∀ q e, ¬ Matched source settings root q e := by
      intro q e hq
      have he := mem_editsOf_iff.2 ⟨q, hq⟩
      rw [hnil] at he
      cases he
    have hvisits : visits source settings root = walk (fresh source settings) ⟨root, []⟩ :=
      visits_eq_fresh hkeys
    refine Option.eq_none_iff_forall_ne_some.2 fun e he => hnone p e ?_
    exact (matched_iff hvisits).2
      ⟨hp, he, fun r hr => answer_eq_none_of_below hvisits (fun a e _ => hnone a e) hr⟩
  · intro h
    refine List.eq_nil_iff_forall_not_mem.2 fun e he => ?_
    obtain ⟨p, hp⟩ := mem_editsOf_iff.1 he
    exact not_matched_of_fresh hkeys (h p hp.mem_all) e hp

end

end ScriptScrub.Sanitizer
