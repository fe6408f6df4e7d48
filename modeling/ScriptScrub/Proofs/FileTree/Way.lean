import Mathlib.Data.List.Perm.Subperm
import ScriptScrub.Proofs.FileTree.Lookup

/-!
# Resolving what is there

The way along a path, with the number of links that are met on it (`Way`), is the one that a look-up
goes (`walkTo_eq_ok_iff`), and there is only one (`Way.unique`). A link that is being followed is
not met again on its own way, for this would make the way longer than itself, and no more links can
be followed at a time than there are in the tree. So resolving a path comes to no loop if the path
leads somewhere, and it comes to the same place (`resolve_of_locate`).
-/

namespace ScriptScrub

namespace Entry

/-- The places of the links among some entries, if they are known of each entry. -/
theorem exists_links_among (es : List (String × Entry))
    (h : ∀ p ∈ es, ∃ places : List (List String), places.length ≤ p.2.linkCount ∧
      ∀ place target, p.2.get? place = some (.link target) → place ∈ places) :
    ∃ places : List (List String), places.length ≤ linkCountAll es ∧
      ∀ name rest target, (named? es name).bind (·.get? rest) = some (.link target) →
        name :: rest ∈ places := by
  induction es with
  | nil => exact ⟨[], Nat.le_refl _, nofun⟩
  | cons p es ih =>
      obtain ⟨first, hfirst, hfound⟩ := h p List.mem_cons_self
      obtain ⟨others, hothers, hfound'⟩ := ih fun q hq => h q (List.mem_cons_of_mem _ hq)
      refine ⟨first.map (p.1 :: ·) ++ others, ?_, fun name rest target hlink => ?_⟩
      · rw [List.length_append, List.length_map, linkCountAll]
        exact Nat.add_le_add hfirst hothers
      · rw [named?_cons] at hlink
        split at hlink
        · next hname =>
          subst hname
          exact List.mem_append_left _ (List.mem_map_of_mem (hfound _ _ hlink))
        · exact List.mem_append_right _ (hfound' _ _ _ hlink)

/-- **There are at most as many places of links** as there are links. -/
theorem exists_links (e : Entry) : ∃ places : List (List String), places.length ≤ e.linkCount ∧
    ∀ place target, e.get? place = some (.link target) → place ∈ places := by
  induction e using induct with
  | file content =>
      refine ⟨[], Nat.le_refl _, fun place target h => ?_⟩
      cases place <;> cases h
  | link target =>
      refine ⟨[[]], Nat.le_refl _, fun place target h => ?_⟩
      cases place with
      | nil => exact List.mem_cons_self
      | cons _ _ => cases h
  | folder es ih =>
      obtain ⟨places, hlength, hfound⟩ := exists_links_among es ih
      refine ⟨places, hlength, fun place target h => ?_⟩
      cases place with
      | nil => cases h
      | cons name rest => exact hfound name rest target h

end Entry

namespace FileTree

/-- Where the target of a link leads from, if the link is in the folder `place`. -/
def targetBase (place : List String) (target : String) : List String :=
  if Path.isAbsolute target then [] else place

/-- A path leads from one place to another, and so many links are met on the way. -/
inductive Way (t : FileTree) : Nat → List String → List String → List String → Prop
  | done (place : List String) : Way t 0 place [] place
  | up {n : Nat} {place rest x : List String} (hplace : t.shape? place = some .folder)
      (h : Way t n place.dropLast rest x) : Way t n place (".." :: rest) x
  | enter {n : Nat} {place rest x : List String} {name : String} {s : Entry.Shape}
      (hplace : t.shape? place = some .folder) (hname : name ≠ "..")
      (hs : t.shape? (place ++ [name]) = some s) (hlink : ∀ target, s ≠ .link target)
      (h : Way t n (place ++ [name]) rest x) : Way t n place (name :: rest) x
  | link {n : Nat} {place rest x : List String} {name target : String}
      (hplace : t.shape? place = some .folder) (hname : name ≠ "..")
      (hs : t.shape? (place ++ [name]) = some (.link target))
      (h : Way t n (targetBase place target) (Path.parts target ++ rest) x) :
      Way t (n + 1) place (name :: rest) x

variable {t : FileTree}

/-- **A look-up goes the way along the path.** -/
theorem exists_way_of_walkTo {links : Nat} {place path x : List String}
    (h : t.walkTo links place path = .ok x) : ∃ n, Way t n place path x := by
  induction links using Nat.strongRecOn generalizing place path with
  | ind links ihlinks =>
    induction path generalizing place with
    | nil =>
        rw [walkTo] at h
        cases h
        exact ⟨0, .done _⟩
    | cons name rest ih =>
        rw [walkTo_cons] at h
        split at h
        case isFalse => cases h
        next hplace =>
        split at h
        · next hname =>
          subst hname
          obtain ⟨n, hway⟩ := ih h
          exact ⟨n, .up hplace hway⟩
        next hname =>
        split at h
        · cases h
        · next target hs =>
          cases links with
          | zero => cases h
          | succ links =>
              obtain ⟨n, hway⟩ := ihlinks links (Nat.lt_succ_self _) h
              exact ⟨n + 1, .link hplace hname hs hway⟩
        · next s hlink hs =>
          obtain ⟨n, hway⟩ := ih h
          exact ⟨n, .enter hplace hname hs hlink hway⟩

/-- **There is one way along a path.** -/
theorem Way.unique {n n' : Nat} {place path x x' : List String} (h : Way t n place path x)
    (h' : Way t n' place path x') : n = n' ∧ x = x' := by
  induction h generalizing n' with
  | done => cases h'; exact ⟨rfl, rfl⟩
  | up hplace _ ih =>
      cases h' with
      | up _ h' => exact ih h'
      | enter _ hname => exact absurd rfl hname
      | link _ hname => exact absurd rfl hname
  | enter hplace hname hs hlink _ ih =>
      cases h' with
      | up => exact absurd rfl hname
      | enter _ _ _ _ h' => exact ih h'
      | link _ _ hs' => exact absurd (Option.some.inj (hs.symm.trans hs')) (hlink _)
  | link hplace hname hs _ ih =>
      cases h' with
      | up => exact absurd rfl hname
      | enter _ _ hs' hlink => exact absurd (Option.some.inj (hs'.symm.trans hs)) (hlink _)
      | link _ _ hs' h' =>
          rw [hs] at hs'
          cases hs'
          obtain ⟨rfl, rfl⟩ := ih h'
          exact ⟨rfl, rfl⟩

/-- **The way along two paths** is a way along the first, and from there a way along the second. -/
theorem Way.split {n : Nat} {place p q x : List String} (h : Way t n place (p ++ q) x) :
    ∃ k l between, n = k + l ∧ Way t k place p between ∧ Way t l between q x := by
  generalize hpath : p ++ q = path at h
  induction h generalizing p with
  | done place =>
      obtain ⟨rfl, rfl⟩ := List.append_eq_nil_iff.1 hpath
      exact ⟨0, 0, place, rfl, .done _, .done _⟩
  | up hplace h ih =>
      cases p with
      | nil => cases hpath; exact ⟨0, _, _, (Nat.zero_add _).symm, .done _, .up hplace h⟩
      | cons name p =>
          cases hpath
          obtain ⟨k, l, between, rfl, hp, hq⟩ := ih rfl
          exact ⟨k, l, between, rfl, .up hplace hp, hq⟩
  | enter hplace hname hs hlink h ih =>
      cases p with
      | nil =>
        cases hpath
        exact ⟨0, _, _, (Nat.zero_add _).symm, .done _, .enter hplace hname hs hlink h⟩
      | cons name p =>
          cases hpath
          obtain ⟨k, l, between, rfl, hp, hq⟩ := ih rfl
          exact ⟨k, l, between, rfl, .enter hplace hname hs hlink hp, hq⟩
  | link hplace hname hs h ih =>
      cases p with
      | nil => cases hpath; exact ⟨0, _, _, (Nat.zero_add _).symm, .done _, .link hplace hname hs h⟩
      | cons name p =>
          cases hpath
          obtain ⟨k, l, between, rfl, hp, hq⟩ := ih (List.append_assoc _ _ _)
          exact ⟨k + 1, l, between, Nat.add_right_comm _ _ _, .link hplace hname hs hp, hq⟩

/-- The link at a place leads somewhere, and at least `n` links are met on the way from it. -/
def LeadsOver (t : FileTree) (n : Nat) (link : List String) : Prop :=
  ∃ place name target k x, link = place ++ [name] ∧ t.shape? link = some (.link target) ∧
    Way t k (targetBase place target) (Path.parts target) x ∧ n ≤ k

/-- **A link is not met on its own way**, for there are fewer links on what is left of it. -/
theorem not_leadsOver_of_way {n k : Nat} {place x : List String} {name target : String}
    (hs : t.shape? (place ++ [name]) = some (.link target))
    (hway : Way t k (targetBase place target) (Path.parts target) x) (hk : k < n) :
    ¬ LeadsOver t n (place ++ [name]) := by
  rintro ⟨place', name', target', k', x', hlink, hs', hway', hn⟩
  obtain ⟨rfl, hname⟩ := List.append_inj' hlink rfl
  rw [hs] at hs'
  cases hs'
  obtain ⟨rfl, -⟩ := hway.unique hway'
  omega

/-- Different links are being followed, and at least `n` links are met on the way from each. -/
structure Following (t : FileTree) (n : Nat) (active : List (List String)) : Prop where
  leads : ∀ link ∈ active, LeadsOver t n link
  nodup : active.Nodup

namespace Following

variable {n : Nat} {active : List (List String)}

/-- At least so many links are met if more are. -/
theorem mono (h : Following t n active) {m : Nat} (hm : m ≤ n) : Following t m active := by
  refine ⟨fun link hlink => ?_, h.nodup⟩
  obtain ⟨place, name, target, k, x, hplace, hs, hway, hn⟩ := h.leads link hlink
  exact ⟨place, name, target, k, x, hplace, hs, hway, Nat.le_trans hm hn⟩

/-- **One more link is followed**, and it is a new one. -/
theorem cons (h : Following t n active) {k : Nat} {place x : List String} {name target : String}
    (hs : t.shape? (place ++ [name]) = some (.link target))
    (hway : Way t k (targetBase place target) (Path.parts target) x) (hk : k < n) :
    place ++ [name] ∉ active ∧ Following t k ((place ++ [name]) :: active) := by
  have hnew : place ++ [name] ∉ active := fun hmem =>
    not_leadsOver_of_way hs hway hk (h.leads _ hmem)
  have hown : LeadsOver t k (place ++ [name]) :=
    ⟨place, name, target, k, x, rfl, hs, hway, Nat.le_refl _⟩
  exact ⟨hnew, List.forall_mem_cons.2 ⟨hown, (h.mono (Nat.le_of_lt hk)).leads⟩,
    List.nodup_cons.2 ⟨hnew, h.nodup⟩⟩

/-- **No more links are followed at a time than there are.** -/
theorem length_le (h : Following t n active) : active.length ≤ t.root.linkCount := by
  obtain ⟨places, hlength, hplaces⟩ := t.root.exists_links
  refine Nat.le_trans (List.subperm_of_subset h.nodup fun link hlink => ?_).length_le hlength
  obtain ⟨_, _, target, _, _, _, hs, _⟩ := h.leads link hlink
  exact hplaces link target (shape?_eq_link.1 hs)

end Following

/-- **A path is resolved to where it leads**, also while links are being followed: on the way from
each of them there are at least as many links as on this one. -/
theorem resolveFrom_of_way {n depth : Nat} {active : List (List String)}
    {place path x : List String} (h : Way t n place path x) (hactive : Following t n active)
    (hdepth : t.root.linkCount ≤ depth + active.length) :
    t.resolveFrom depth active place path = .ok x := by
  -- The way from a link has two parts, one from it and one after it, with fewer links on each.
  induction n using Nat.strongRecOn generalizing depth active place path x with
  | ind n ihn =>
    induction path generalizing place with
    | nil =>
        cases h
        rw [resolveFrom]
    | cons name rest ih =>
        rw [resolveFrom]
        cases h with
        | up _ h => exact ih h
        | enter _ hname hs hlink h =>
            rw [if_neg hname]
            split
            · next target he =>
              rw [shape?_eq_link.2 he] at hs
              cases hs
              exact absurd rfl (hlink target)
            · exact ih h
        | link _ hname hs h =>
            obtain ⟨k, l, between, rfl, hown, hrest⟩ := h.split
            obtain ⟨hnew, hactive'⟩ := hactive.cons hs hown (by omega)
            have hcount := hactive'.length_le
            rw [List.length_cons] at hcount
            obtain ⟨depth, rfl⟩ : ∃ d, depth = d + 1 := ⟨depth - 1, by omega⟩
            have hdepth' : t.root.linkCount ≤ depth + ((place ++ [name]) :: active).length := by
              rw [List.length_cons]
              omega
            have hreached := ihn k (by omega) hown hactive' hdepth'
            rw [targetBase] at hreached
            simp only [hname, if_false, shape?_eq_link.1 hs, List.contains_iff_mem, hnew, hreached]
            exact ihn l (by omega) hrest (hactive.mono (by omega)) hdepth

/-- **A path that leads somewhere is resolved to this place.** -/
theorem resolve_of_locate {base place : List String} {path : String}
    (h : t.locate base path = .ok place) : t.resolve base path = .ok place := by
  obtain ⟨n, hway⟩ := exists_way_of_walkTo h
  rw [resolve, resolveFrom_of_way hway ⟨fun _ hlink => absurd hlink List.not_mem_nil, .nil⟩
    (Nat.le_add_right _ _)]

/-- A path that leads to something is resolved. -/
theorem exists_resolve_of_leads {base : List String} {path : String}
    (h : t.leads base path = true) : ∃ place, t.resolve base path = .ok place := by
  rw [leads, entryAt] at h
  cases hplace : t.locate base path with
  | ok place => exact ⟨place, resolve_of_locate hplace⟩
  | error e =>
      rw [hplace] at h
      cases h

end FileTree

end ScriptScrub
