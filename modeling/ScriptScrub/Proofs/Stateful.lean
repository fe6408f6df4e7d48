import Mathlib.Order.Basic

/-!
# Computations with a state

`Answers x a` says that the computation `x` answers `a` from some state. What a computation answers
may depend on the state; `Yields I x a` says that it does not: from every state that satisfies `I`,
the computation `x` answers `a` and leads to such a state again. `Keeps I x` says the latter alone.
Where states are memories that only grow, `Recalls x` says that `x` answers the same again after it
has answered, and `Foretells u x y` that below the memory `u` it answers what `y` does.

A program that is written for any monad runs alike in two of them if what it calls does: it is
enough that a relation is kept by sequencing (`Lockstep`).
-/

namespace ScriptScrub

section
variable {σ α β : Type}

/-- `x` answers `a` from some state. -/
def Answers (x : StateM σ α) (a : α) : Prop := ∃ s, (x.run s).1 = a

/-- A pure computation has one answer. -/
theorem Answers.pure {a b : α} (h : Answers (Pure.pure a : StateM σ α) b) : b = a := by
  obtain ⟨s, rfl⟩ := h
  rfl

/-- A sequence answers what its second part answers after an answer of the first. -/
theorem Answers.bind {x : StateM σ α} {f : α → StateM σ β} {b : β} (h : Answers (x >>= f) b) :
    ∃ a, Answers x a ∧ Answers (f a) b := by
  obtain ⟨s, rfl⟩ := h
  exact ⟨(x.run s).1, ⟨s, rfl⟩, (x.run s).2, rfl⟩

/-- A mapped computation answers the image of an answer. -/
theorem Answers.map {x : StateM σ α} {f : α → β} {b : β} (h : Answers (f <$> x) b) :
    ∃ a, Answers x a ∧ f a = b := by
  obtain ⟨s, rfl⟩ := h
  exact ⟨(x.run s).1, ⟨s, rfl⟩, rfl⟩

variable {I : σ → Prop}

/-- From every state that satisfies `I`, `x` answers `a` and leads to a state that satisfies `I`. -/
def Yields (I : σ → Prop) (x : StateM σ α) (a : α) : Prop :=
  ∀ s, I s → (x.run s).1 = a ∧ I (x.run s).2

/-- A pure computation yields its value. -/
theorem Yields.pure (a : α) : Yields I (Pure.pure a : StateM σ α) a := fun _ hs => ⟨rfl, hs⟩

/-- A sequence yields what its second part yields after what the first yields. -/
theorem Yields.bind {x : StateM σ α} {f : α → StateM σ β} {a : α} {b : β} (hx : Yields I x a)
    (hf : Yields I (f a) b) : Yields I (x >>= f) b := by
  intro s hs
  obtain ⟨ha, ht⟩ := hx s hs
  have := hf (x.run s).2 ht
  rw [← ha] at this
  exact this

/-- A mapped computation yields the image of what it yields. -/
theorem Yields.map {x : StateM σ α} {a : α} (f : α → β) (hx : Yields I x a) :
    Yields I (f <$> x) (f a) := by
  rw [← bind_pure_comp]
  exact hx.bind (.pure (f a))

/-- **Computations one after the other** yield what each of them yields. -/
theorem Yields.mapM {f : α → StateM σ β} {g : α → β} {as : List α}
    (h : ∀ a ∈ as, Yields I (f a) (g a)) : Yields I (as.mapM f) (as.map g) := by
  induction as with
  | nil => exact .pure []
  | cons a as ih =>
      rw [List.mapM_cons, List.map_cons]
      have hrest := ih fun b hb => h b (List.mem_cons_of_mem _ hb)
      exact (h a List.mem_cons_self).bind (hrest.bind (.pure _))

/-- From every state that satisfies `I`, `x` leads to a state that satisfies `I`. -/
def Keeps (I : σ → Prop) (x : StateM σ α) : Prop := ∀ s, I s → I (x.run s).2

/-- A pure computation keeps everything. -/
theorem Keeps.pure (a : α) : Keeps I (Pure.pure a : StateM σ α) := fun _ hs => hs

/-- What holds after the first part of a sequence holds after the sequence if the second part keeps
it. -/
theorem Keeps.after {x : StateM σ α} {f : α → StateM σ β} (hf : ∀ a, Keeps I (f a)) {s : σ}
    (hx : I (x.run s).2) : I ((x >>= f).run s).2 := hf (x.run s).1 (x.run s).2 hx

/-- A sequence keeps what its parts keep. -/
theorem Keeps.bind {x : StateM σ α} {f : α → StateM σ β} (hx : Keeps I x)
    (hf : ∀ a, Keeps I (f a)) : Keeps I (x >>= f) :=
  fun s hs => Keeps.after hf (hx s hs)

end

/-! ## Computations of two kinds -/

/-- A relation between computations in two monads that sequencing keeps. -/
structure Lockstep {m m' : Type → Type} [Monad m] [Monad m']
    (R : (α : Type) → m α → m' α → Prop) : Prop where
  pure {α : Type} (a : α) : R α (Pure.pure a) (Pure.pure a)
  bind {α β : Type} {x : m α} {y : m' α} {f : α → m β} {g : α → m' β} (hx : R α x y)
    (hf : ∀ a, R β (f a) (g a)) : R β (x >>= f) (y >>= g)

/-- Mapping the answers of related computations. -/
theorem Lockstep.map {m m' : Type → Type} [Monad m] [Monad m'] [LawfulMonad m] [LawfulMonad m']
    {R : (α : Type) → m α → m' α → Prop} (hR : Lockstep R) {α β : Type} (f : α → β) {x : m α}
    {y : m' α} (hx : R α x y) : R β (f <$> x) (f <$> y) := by
  rw [← bind_pure_comp, ← bind_pure_comp]
  exact hR.bind hx fun a => hR.pure (f a)

section
variable {σ : Type}

/-- `x` yields what the computation `y` without a state answers. -/
def Agrees (I : σ → Prop) (α : Type) (x : StateM σ α) (y : StateM Unit α) : Prop :=
  Yields I x (y.run ()).1

/-- Sequences whose parts agree agree. -/
theorem lockstep_agrees (I : σ → Prop) : Lockstep (Agrees I) where
  pure := Yields.pure
  bind hx hf := Yields.bind hx (hf _)

/-- `x` keeps `I`, whatever it is compared with. -/
def KeepsBeside (I : σ → Prop) (α : Type) (x : StateM σ α) (_ : StateM Unit α) : Prop := Keeps I x

/-- Sequences whose parts keep `I` keep it. -/
theorem lockstep_keeps (I : σ → Prop) : Lockstep (KeepsBeside I) where
  pure := Keeps.pure
  bind hx hf := hx.bind hf

variable [Preorder σ] {α β : Type}

/-- `x` makes the state greater, and from every state above the one that it leads to it answers the
same and changes nothing. -/
def Recalls (x : StateM σ α) : Prop :=
  ∀ s, s ≤ (x.run s).2 ∧ ∀ t, (x.run s).2 ≤ t → x.run t = ((x.run s).1, t)

/-- A pure computation recalls its value. -/
theorem Recalls.pure (a : α) : Recalls (Pure.pure a : StateM σ α) :=
  fun s => ⟨le_refl s, fun _ _ => rfl⟩

/-- A sequence whose parts recall their answers recalls its own. -/
theorem Recalls.bind {x : StateM σ α} {f : α → StateM σ β} (hx : Recalls x)
    (hf : ∀ a, Recalls (f a)) : Recalls (x >>= f) := by
  intro s
  obtain ⟨hgrows, hagain⟩ := hx s
  obtain ⟨hgrows', hagain'⟩ := hf (x.run s).1 (x.run s).2
  refine ⟨le_trans hgrows hgrows', fun t ht => ?_⟩
  rw [StateT.run_bind, hagain t (le_trans hgrows' ht)]
  exact hagain' t ht

/-- `x` makes the state greater, and if it stays below `u` it answers what `y` does. -/
def Foretells (u : σ) (α : Type) (x : StateM σ α) (y : StateM Unit α) : Prop :=
  ∀ s, s ≤ (x.run s).2 ∧ ((x.run s).2 ≤ u → (x.run s).1 = (y.run ()).1)

/-- What recalls its answers answers below `u` what it does at `u`. -/
theorem Recalls.foretells {x : StateM σ α} (hx : Recalls x) (u : σ) :
    Foretells u α x (Pure.pure (x.run u).1) := by
  intro s
  obtain ⟨hgrows, hagain⟩ := hx s
  refine ⟨hgrows, fun hu => ?_⟩
  rw [hagain u hu]
  rfl

/-- Sequences whose parts are foretold are foretold. -/
theorem lockstep_foretells (u : σ) : Lockstep (Foretells u) where
  pure _ s := ⟨le_refl s, fun _ => rfl⟩
  bind := by
    intro α β x y f g hx hf s
    obtain ⟨hgrows, hanswer⟩ := hx s
    obtain ⟨hgrows', hanswer'⟩ := hf (x.run s).1 (x.run s).2
    refine ⟨le_trans hgrows hgrows', fun hu => ?_⟩
    refine (hanswer' hu).trans ?_
    rw [hanswer (le_trans hgrows' hu)]
    rfl

end

end ScriptScrub
