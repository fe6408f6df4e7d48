import ScriptScrub.Proofs.Syntax.Places
import ScriptScrub.Proofs.Sanitizer.Matching

/-!
# The walk that collects edits

Collecting asks about one place after the other and does not go below a place that asks for an
edit. `visitFrom` is that walk with a record of every place it comes to and what it was told there;
the edits are what remains of the record, whether the walk keeps a stack (`collectStack_eq`) or goes
by recursion (`collectFrom_eq`). `Walks` is the walk with a stack of places still to visit, from one
state to another (`walks_visitFrom`).

The index that names are looked up in changes along the walk, but no place is visited twice. So
the record is that of a walk whose answers depend on the place alone (`exists_walk`), and every
such answer is one that asking can give. What a walk of that kind comes to is read off its one
equation (`walk_eq`): the places with no answer at any place above (`mem_walk_iff`).
-/

namespace ScriptScrub.Sanitizer

open Config (SanitizerSettings)

/-- A place that a walk comes to, with what it is told there. -/
structure Visit (α : Type) where
  place : Place
  answer : Option α

/-! ## The record of a walk -/

section
variable {m : Type → Type} [Monad m] {α : Type} (ask : Place → m (Option α))

mutual

/-- The visits to a node and, if there is no answer at it, to the nodes below it. -/
def visitFrom (above : List (Node × Nat)) : Node → m (List (Visit α))
  | n@⟨_, _, _, _, _, _, _, children⟩ => do
    match ← ask ⟨n, above⟩ with
    | some a => pure [⟨⟨n, above⟩, some a⟩]
    | none => do
      let below ← visitAmong n above 0 children
      pure (⟨⟨n, above⟩, none⟩ :: below)

/-- The visits to the children of `parent` from the position `index` on, and below them. -/
def visitAmong (parent : Node) (above : List (Node × Nat)) (index : Nat) :
    List Node → m (List (Visit α))
  | [] => pure []
  | n :: ns => do
    let visits ← visitFrom ((parent, index) :: above) n
    let more ← visitAmong parent above (index + 1) ns
    pure (visits ++ more)

end

/-- The visits to one place after the other, and below them. -/
def visitEach : List Place → m (List (Visit α))
  | [] => pure []
  | p :: ps => do
    let visits ← visitFrom ask p.above p.node
    let more ← visitEach ps
    pure (visits ++ more)

/-- The visits to the places of two lists. -/
theorem visitEach_append [LawfulMonad m] (ps qs : List Place) :
    visitEach ask (ps ++ qs) = (do
      let visits ← visitEach ask ps
      let more ← visitEach ask qs
      pure (visits ++ more)) := by
  induction ps with
  | nil => simp [visitEach]
  | cons p ps ih => simp [visitEach, ih, ← List.append_assoc]

/-- The visits to a single place. -/
theorem visitEach_singleton [LawfulMonad m] (p : Place) :
    visitEach ask [p] = visitFrom ask p.above p.node := by
  simp [visitEach]

/-- The visits to some children of `parent`, as visits to their places. -/
theorem visitAmong_eq (parent : Node) (above : List (Node × Nat)) (index : Nat)
    (ns : List Node) :
    visitAmong ask parent above index ns =
      visitEach ask (ns.mapIdx fun i n => ⟨n, (parent, index + i) :: above⟩) := by
  induction ns generalizing index with
  | nil => rw [visitAmong]; rfl
  | cons n ns ih =>
      rw [visitAmong, ih, List.mapIdx_cons, visitEach]
      simp only [Nat.add_zero, Nat.add_assoc, Nat.add_comm 1]

/-- The visits to a place are the visit to the place itself and, if there is no answer at it, those
to its children. -/
theorem visitFrom_eq (p : Place) :
    visitFrom ask p.above p.node = (do
      match ← ask p with
      | some a => pure [⟨p, some a⟩]
      | none => do
        let below ← visitEach ask p.children
        pure (⟨p, none⟩ :: below)) := by
  obtain ⟨⟨kind, start, stop, named, missing, broken, field, children⟩, above⟩ := p
  rw [visitFrom]
  simp only [visitAmong_eq, Nat.zero_add]
  rfl

end

/-! ## Collecting is a walk -/

section
variable (source : Bytes) (settings : SanitizerSettings)
variable {m : Type → Type} [Monad m] (bound : Place → m Bool)

mutual

/-- The edits of a node by recursion: its own, or if it asks for none those of the nodes below. -/
def collectFrom (above : List (Node × Nat)) : Node → m (List RuleEdit)
  | n@⟨_, _, _, _, _, _, _, children⟩ => do
    match ← match? source settings bound ⟨n, above⟩ with
    | some edit => pure [edit]
    | none => collectAmong n above 0 children

/-- The edits of the children of `parent` from the position `index` on. -/
def collectAmong (parent : Node) (above : List (Node × Nat)) (index : Nat) :
    List Node → m (List RuleEdit)
  | [] => pure []
  | n :: ns => do
    let edits ← collectFrom ((parent, index) :: above) n
    let more ← collectAmong parent above (index + 1) ns
    pure (edits ++ more)

end

variable [LawfulMonad m]

mutual

/-- **The edits of a node** are the answers on the record of its walk. -/
theorem collectFrom_eq (above : List (Node × Nat)) : ∀ n,
    collectFrom source settings bound above n =
      (·.filterMap Visit.answer) <$> visitFrom (match? source settings bound) above n
  | ⟨kind, start, stop, named, missing, broken, field, children⟩ => by
      rw [collectFrom, visitFrom, map_bind]
      refine bind_congr fun answer => ?_
      cases answer with
      | some e => simp
      | none =>
          simp only [collectAmong_eq, map_bind, map_pure, List.filterMap_cons]
          rw [← bind_pure_comp]

/-- The edits of a list of children are the answers on the record of their walk. -/
theorem collectAmong_eq (parent : Node) (above : List (Node × Nat)) (index : Nat) : ∀ ns,
    collectAmong source settings bound parent above index ns =
      (·.filterMap Visit.answer) <$> visitAmong (match? source settings bound) parent above index ns
  | [] => by rw [collectAmong, visitAmong, map_pure]; rfl
  | n :: ns => by
      rw [collectAmong, visitAmong, collectFrom_eq, collectAmong_eq]
      simp only [map_bind, bind_map_left, map_pure, List.filterMap_append]

end

/-- **The edits on a stack** are the answers on the record of the walks of its places. -/
theorem collectStack_eq (ps : List Place) :
    collectStack source settings bound ps =
      (·.filterMap Visit.answer) <$> visitEach (match? source settings bound) ps := by
  induction ps using collectStack.induct with
  | case1 => rw [collectStack, visitEach, map_pure]; rfl
  | case2 p ps ihhit ihmiss =>
      rw [collectStack, visitEach, visitFrom_eq, bind_assoc, map_bind]
      refine bind_congr fun answer => ?_
      cases answer with
      | some e => simp [ihhit]
      | none => simp [ihmiss, visitEach_append]

end

/-! ## The walk with a stack -/

section
variable {σ α : Type} {ask : Place → StateM σ (Option α)}

/-- The walk that takes the first place off a stack, asks about it, and puts its children on the
stack if there is no answer: from a stack and a state to the record and a state. -/
inductive Walks (ask : Place → StateM σ (Option α)) :
    List Place → σ → List (Visit α) → σ → Prop where
  | done {s : σ} : Walks ask [] s [] s
  | hit {p : Place} {ps : List Place} {s t u : σ} {a : α} {vs : List (Visit α)}
      (h : (ask p).run s = (some a, t)) (hps : Walks ask ps t vs u) :
      Walks ask (p :: ps) s (⟨p, some a⟩ :: vs) u
  | miss {p : Place} {ps : List Place} {s t u : σ} {vs : List (Visit α)}
      (h : (ask p).run s = (none, t)) (hps : Walks ask (p.children ++ ps) t vs u) :
      Walks ask (p :: ps) s (⟨p, none⟩ :: vs) u

/-- **The visits to a place** are what the walk with a stack records before it comes to the rest
of the stack. -/
theorem walks_visitFrom (p : Place) (s : σ) {ps : List Place} {vs : List (Visit α)} {w : σ}
    (h : Walks ask ps ((visitFrom ask p.above p.node).run s).2 vs w) :
    Walks ask (p :: ps) s (((visitFrom ask p.above p.node).run s).1 ++ vs) w := by
  induction p using Place.induct generalizing s ps vs w with
  | step p ih =>
    have each : ∀ cs : List Place, (∀ c ∈ cs, c ∈ p.children) → ∀ {t ps vs},
        Walks ask ps ((visitEach ask cs).run t).2 vs w →
        Walks ask (cs ++ ps) t (((visitEach ask cs).run t).1 ++ vs) w := by
      intro cs
      induction cs with
      | nil => intro _ t ps vs h; exact h
      | cons c cs ihs =>
          intro hcs t ps vs h
          have hrest := ihs (fun d hd => hcs d (List.mem_cons_of_mem _ hd)) h
          have := ih c (hcs c List.mem_cons_self) t hrest
          rw [← List.append_assoc] at this
          exact this
    rw [visitFrom_eq] at h ⊢
    rcases hrun : (ask p).run s with ⟨_ | a, t⟩
    · simp only [StateT.run_bind, hrun] at h ⊢
      exact .miss hrun (each p.children (fun _ hc => hc) h)
    · simp only [StateT.run_bind, hrun] at h ⊢
      exact .hit hrun h

/-- What a walk is told at a place is something that asking can answer. -/
theorem Walks.answers {ps : List Place} {s u : σ} {vs : List (Visit α)}
    (h : Walks ask ps s vs u) : ∀ v ∈ vs, Answers (ask v.place) v.answer := by
  induction h with
  | done => exact fun _ hv => absurd hv List.not_mem_nil
  | hit hrun _ ih | miss hrun _ ih =>
      intro v hv
      rcases List.mem_cons.1 hv with rfl | hv
      · exact ⟨_, congrArg Prod.fst hrun⟩
      · exact ih v hv

/-- A walk comes to places that the stack lists, in the order of the listing. -/
theorem Walks.sublist {ps : List Place} {s u : σ} {vs : List (Visit α)}
    (h : Walks ask ps s vs u) : (vs.map (·.place)).Sublist (ps.flatMap Place.preorder) := by
  induction h with
  | done => exact .slnil
  | @hit p _ _ _ _ _ _ _ _ ih =>
      rw [List.map_cons, List.flatMap_cons, Place.preorder_eq, List.cons_append]
      exact .cons_cons _ (ih.trans (List.sublist_append_right _ _))
  | miss _ _ ih =>
      rw [List.flatMap_append] at ih
      rw [List.map_cons, List.flatMap_cons, Place.preorder_eq, List.cons_append]
      exact .cons_cons _ ih

/-- **A walk is told** what is foretold of asking below the state that it leads to. -/
theorem Walks.foretold [Preorder σ] {answer : Place → StateM Unit (Option α)} {ps : List Place}
    {s u : σ} {vs : List (Visit α)} (hask : ∀ p, Foretells u _ (ask p) (answer p))
    (h : Walks ask ps s vs u) :
    s ≤ u ∧ ∀ v ∈ vs, ((answer v.place).run ()).1 = v.answer := by
  induction h with
  | done => exact ⟨le_refl _, fun _ hv => absurd hv List.not_mem_nil⟩
  | @hit p _ s _ _ _ _ hrun _ ih | @miss p _ s _ _ _ hrun _ ih =>
      obtain ⟨hgrows, hanswer⟩ := hask p s
      rw [hrun] at hgrows hanswer
      obtain ⟨hle, hrest⟩ := ih hask
      exact ⟨le_trans hgrows hle, List.forall_mem_cons.2 ⟨(hanswer hle).symm, hrest⟩⟩

end

/-! ## The walk with fixed answers -/

section
variable {α : Type}

/-- The record of the walk from `p` that is told `answer q` at the place `q`. -/
def walk (answer : Place → Option α) (p : Place) : List (Visit α) :=
  Id.run (visitFrom (m := Id) answer p.above p.node)

/-- **The equation of a walk.** -/
theorem walk_eq (answer : Place → Option α) (p : Place) :
    walk answer p =
      match answer p with
      | some a => [⟨p, some a⟩]
      | none => ⟨p, none⟩ :: p.children.flatMap (walk answer) := by
  have each : ∀ ps : List Place, visitEach (m := Id) answer ps = ps.flatMap (walk answer) := by
    intro ps
    induction ps with
    | nil => rfl
    | cons p ps ih => rw [visitEach, ih]; rfl
  rw [walk, visitFrom_eq, each]
  change (match answer p with | some a => _ | none => _) = _
  cases answer p <;> rfl

/-- A walk comes to what it lists below a place only if there is no answer at that place. -/
theorem mem_walk_iff {answer : Place → Option α} {p q : Place} {a : Option α} :
    ⟨q, a⟩ ∈ walk answer p ↔
      q ∈ p.preorder ∧ answer q = a ∧ ∀ r ∈ p.preorder, r.Below q → answer r = none := by
  induction p using Place.induct with
  | step p ih =>
    have hself : p ∈ p.preorder := Place.mem_preorder_iff.2 (.inl rfl)
    rw [walk_eq]
    constructor
    · intro h
      cases hp : answer p with
      | some b =>
          simp only [hp, List.mem_singleton, Visit.mk.injEq] at h
          obtain ⟨rfl, rfl⟩ := h
          refine ⟨hself, hp, fun r hr hbelow => ?_⟩
          exact absurd hbelow (Place.not_below_of_mem_preorder hr)
      | none =>
          simp only [hp, List.mem_cons, Visit.mk.injEq, List.mem_flatMap] at h
          rcases h with ⟨rfl, rfl⟩ | ⟨c, hc, hq⟩
          · refine ⟨hself, hp, fun r hr hbelow => ?_⟩
            exact absurd hbelow (Place.not_below_of_mem_preorder hr)
          · obtain ⟨hqc, ha, habove⟩ := (ih c hc).1 hq
            have hpq : p.Below q :=
              Place.below_iff_child.2 ⟨c, hc, Place.mem_preorder_iff.1 hqc⟩
            refine ⟨Place.mem_preorder_iff.2 (.inr hpq), ha, fun r hr hbelow => ?_⟩
            rcases Place.mem_preorder_iff.1 hr with rfl | hr
            · exact hp
            · exact habove r (Place.mem_preorder_of_below hc hqc hr hbelow) hbelow
    · rintro ⟨hq, rfl, habove⟩
      rcases Place.mem_preorder_iff.1 hq with rfl | hq
      · cases answer q <;> simp
      · rw [habove p hself hq]
        obtain ⟨c, hc, hqc⟩ := Place.below_iff_child.1 hq
        refine List.mem_cons_of_mem _ (List.mem_flatMap.2 ⟨c, hc, (ih c hc).2 ⟨?_, rfl, ?_⟩⟩)
        · exact Place.mem_preorder_iff.2 hqc
        · intro r hr hbelow
          refine habove r (Place.mem_preorder_iff.2 (.inr ?_)) hbelow
          exact Place.below_iff_child.2 ⟨c, hc, Place.mem_preorder_iff.1 hr⟩

/-- A walk comes to places in the order of the listing. -/
theorem sublist_walk (answer : Place → Option α) (p : Place) :
    ((walk answer p).map (·.place)).Sublist p.preorder := by
  induction p using Place.induct with
  | step p ih =>
    rw [walk_eq, Place.preorder_eq]
    cases answer p with
    | some a => exact .cons_cons _ (List.nil_sublist _)
    | none =>
        rw [List.map_cons, List.map_flatMap]
        refine .cons_cons _ ?_
        generalize p.children = children at ih ⊢
        induction children with
        | nil => exact .slnil
        | cons c cs ihs =>
            rw [List.flatMap_cons, List.flatMap_cons]
            exact .append (ih c List.mem_cons_self) (ihs fun d hd => ih d (.tail _ hd))

/-- At or above a place that has an answer stands an outermost one. -/
theorem exists_outermost {answer : Place → Option α} {r p : Place} (hp : p ∈ r.preorder)
    (h : answer p ≠ none) :
    ∃ q ∈ r.preorder, (q = p ∨ q.Below p) ∧ answer q ≠ none ∧
      ∀ a ∈ r.preorder, a.Below q → answer a = none := by
  induction hlen : p.above.length using Nat.strongRecOn generalizing p with
  | ind n ih =>
    by_cases habove : ∃ a ∈ r.preorder, a.Below p ∧ answer a ≠ none
    · obtain ⟨a, ha, hap, hanswer⟩ := habove
      obtain ⟨q, hq, hqa, hrest⟩ := ih _ (hlen ▸ hap.length_lt) ha hanswer rfl
      refine ⟨q, hq, .inr ?_, hrest⟩
      rcases hqa with rfl | hqa
      · exact hap
      · exact hqa.trans hap
    · push Not at habove
      exact ⟨p, hp, .inl rfl, h, habove⟩

/-- A walk whose record agrees with fixed answers is the walk with these answers. -/
theorem Walks.eq_walk {σ : Type} {ask : Place → StateM σ (Option α)} {answer : Place → Option α}
    {ps : List Place} {s u : σ} {vs : List (Visit α)} (h : Walks ask ps s vs u)
    (hvs : ∀ v ∈ vs, answer v.place = v.answer) : vs = ps.flatMap (walk answer) := by
  induction h with
  | done => rfl
  | hit hrun _ ih =>
      rw [List.flatMap_cons, walk_eq, hvs _ List.mem_cons_self,
        ih fun v hv => hvs v (List.mem_cons_of_mem _ hv)]
      rfl
  | miss hrun _ ih =>
      rw [List.flatMap_cons, walk_eq, hvs _ List.mem_cons_self,
        ih fun v hv => hvs v (List.mem_cons_of_mem _ hv), List.flatMap_append]
      rfl

/-- **The walk of a place is a walk with fixed answers**, each of which asking can give: the state
that asking leaves behind only tells which. -/
theorem exists_walk {σ : Type} (ask : Place → StateM σ (Option α)) (s : σ) (p : Place) :
    ∃ answer, ((visitFrom ask p.above p.node).run s).1 = walk answer p ∧
      ∀ q, Answers (ask q) (answer q) := by
  classical
  have hwalks : Walks ask [p] s (((visitFrom ask p.above p.node).run s).1 ++ []) _ :=
    walks_visitFrom p s .done
  rw [List.append_nil] at hwalks
  generalize ((visitFrom ask p.above p.node).run s).1 = vs at hwalks ⊢
  have hnodup : (vs.map (·.place)).Nodup := by
    refine hwalks.sublist.nodup ?_
    rw [List.flatMap_singleton]
    exact Place.nodup_preorder p
  let answer (q : Place) : Option α :=
    if h : ∃ v ∈ vs, v.place = q then h.choose.answer else ((ask q).run s).1
  have hvs : ∀ v ∈ vs, answer v.place = v.answer := by
    intro v hv
    have h : ∃ w ∈ vs, w.place = v.place := ⟨v, hv, rfl⟩
    have := List.inj_on_of_nodup_map hnodup h.choose_spec.1 hv h.choose_spec.2
    simp only [answer, dif_pos h, this]
  refine ⟨answer, ?_, fun q => ?_⟩
  · rw [hwalks.eq_walk hvs, List.flatMap_singleton]
  · by_cases h : ∃ v ∈ vs, v.place = q
    · obtain ⟨v, hv, rfl⟩ := h
      rw [hvs v hv]
      exact hwalks.answers v hv
    · simp only [answer, dif_neg h]
      exact ⟨s, rfl⟩

/-- **The walk of a place is the walk with the answers that are foretold** of asking below the state
that it leads to. -/
theorem visitFrom_foretold {σ : Type} [Preorder σ] {ask : Place → StateM σ (Option α)}
    {answer : Place → StateM Unit (Option α)} (s : σ) (p : Place)
    (hask : ∀ q, Foretells ((visitFrom ask p.above p.node).run s).2 _ (ask q) (answer q)) :
    ((visitFrom ask p.above p.node).run s).1 = walk (fun q => ((answer q).run ()).1) p := by
  have hwalks : Walks ask [p] s (((visitFrom ask p.above p.node).run s).1 ++ []) _ :=
    walks_visitFrom p s .done
  rw [List.append_nil] at hwalks
  have heq : ((visitFrom ask p.above p.node).run s).1 =
      [p].flatMap (walk fun q => ((answer q).run ()).1) :=
    hwalks.eq_walk (hwalks.foretold hask).2
  rw [heq, List.flatMap_singleton]

end

end ScriptScrub.Sanitizer
