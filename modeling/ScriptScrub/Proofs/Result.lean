/-!
# Results

What is known of a computation that may fail when it has a result: each of its parts has one
(`bind_eq_ok`), and if it goes over a list, so has each of its members.
-/

namespace ScriptScrub

/-- What goes on with a result has a result itself. -/
theorem bind_eq_ok {ε α β : Type} {x : Except ε α} {f : α → Except ε β} {b : β} :
    x >>= f = .ok b ↔ ∃ a, x = .ok a ∧ f a = .ok b := by
  cases x with
  | error e => simp [bind, Except.bind]
  | ok a => simp [bind, Except.bind]

/-- What a result is turned into is a result. -/
theorem map_eq_ok {ε α β : Type} {x : Except ε α} {f : α → β} {b : β} :
    f <$> x = .ok b ↔ ∃ a, x = .ok a ∧ f a = b := by
  cases x with
  | error e => simp [Functor.map, Except.map]
  | ok a => simp [Functor.map, Except.map]

/-- There is a result exactly if the computation says so. -/
theorem exists_ok_iff {ε α : Type} {x : Except ε α} : (∃ a, x = .ok a) ↔ x.isOk = true := by
  cases x with
  | error e => exact iff_of_false nofun nofun
  | ok a => exact iff_of_true ⟨a, rfl⟩ rfl

/-- Each of several results is one for a member of the list. -/
theorem exists_of_mem_mapM {ε α β : Type} {f : α → Except ε β} {xs : List α} {ys : List β}
    (h : xs.mapM f = .ok ys) {y : β} (hy : y ∈ ys) : ∃ x ∈ xs, f x = .ok y := by
  induction xs generalizing ys with
  | nil =>
      cases h
      cases hy
  | cons x xs ih =>
      rw [List.mapM_cons, bind_eq_ok] at h
      obtain ⟨first, hfirst, h⟩ := h
      obtain ⟨rest, hrest, h⟩ := bind_eq_ok.1 h
      cases h
      rcases List.mem_cons.1 hy with rfl | hy
      · exact ⟨x, .head _, hfirst⟩
      · obtain ⟨x', hx', hy⟩ := ih hrest hy
        exact ⟨x', .tail _ hx', hy⟩

/-- The last of several results is one for the last member of the list. -/
theorem exists_of_mapM_concat {ε α β : Type} {f : α → Except ε β} {xs : List α} {x : α}
    {ys : List β} (h : (xs ++ [x]).mapM f = .ok ys) :
    ∃ init y, ys = init ++ [y] ∧ f x = .ok y := by
  rw [List.mapM_append, bind_eq_ok] at h
  obtain ⟨init, -, h⟩ := h
  obtain ⟨last, hlast, h⟩ := bind_eq_ok.1 h
  rw [List.mapM_cons, bind_eq_ok] at hlast
  obtain ⟨y, hy, hlast⟩ := hlast
  cases hlast
  cases h
  exact ⟨init, y, rfl, hy⟩

/-- A computation over a list fails as it does for one of the members. -/
theorem exists_of_mapM_error {ε α β : Type} {f : α → Except ε β} {xs : List α} {e : ε}
    (h : xs.mapM f = .error e) : ∃ x ∈ xs, f x = .error e := by
  induction xs with
  | nil => cases h
  | cons x xs ih =>
      rw [List.mapM_cons] at h
      cases hx : f x with
      | error e' =>
          rw [hx] at h
          cases h
          exact ⟨x, .head _, hx⟩
      | ok y =>
          rw [hx] at h
          cases hxs : xs.mapM f with
          | error e' =>
              rw [hxs] at h
              cases h
              obtain ⟨x', hx', he⟩ := ih hxs
              exact ⟨x', .tail _ hx', he⟩
          | ok ys =>
              rw [hxs] at h
              cases h

/-- A result for each member of a list. -/
theorem mapM_eq_ok {ε α β : Type} {f : α → Except ε β} {g : α → β} {xs : List α}
    (h : ∀ x ∈ xs, f x = .ok (g x)) : xs.mapM f = .ok (xs.map g) := by
  induction xs with
  | nil => rfl
  | cons x xs ih =>
      rw [List.forall_mem_cons] at h
      rw [List.mapM_cons, h.1, ih h.2]
      rfl

/-- **There are results for a list** exactly if there is one for each of its members. -/
theorem exists_mapM_iff {ε α β : Type} {f : α → Except ε β} {xs : List α} :
    (∃ ys, xs.mapM f = .ok ys) ↔ ∀ x ∈ xs, ∃ y, f x = .ok y := by
  induction xs with
  | nil => exact iff_of_true ⟨[], rfl⟩ nofun
  | cons x xs ih =>
      rw [List.forall_mem_cons, ← ih]
      constructor
      · rintro ⟨ys, h⟩
        rw [List.mapM_cons] at h
        obtain ⟨y, hy, h⟩ := bind_eq_ok.1 h
        obtain ⟨rest, hrest, -⟩ := bind_eq_ok.1 h
        exact ⟨⟨y, hy⟩, rest, hrest⟩
      · rintro ⟨⟨y, hy⟩, rest, hrest⟩
        exact ⟨y :: rest, by rw [List.mapM_cons, hy, hrest]; rfl⟩

end ScriptScrub
