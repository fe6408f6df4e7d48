import ScriptScrub.Proofs.FileTree.Lookup

/-!
# Resolving

In a tree without links a path is resolved by name alone (`LinkFree.resolve`), so the absolute path
of a place is resolved to this place, whether anything is there or not
(`LinkFree.resolve_absolute`). With links the way leads along names of the path and of links, and no
others (`TargetsHave.resolve`).
-/

namespace ScriptScrub

namespace Path

/-- Going along names that do not lead up. -/
theorem follow_eq {place path : List String} (h : ∀ n ∈ path, n ≠ "..") :
    follow place path = place ++ path := by
  induction path generalizing place with
  | nil => simp [follow]
  | cons name path ih =>
      rw [List.forall_mem_cons] at h
      rw [follow, List.foldl_cons, if_neg h.1, ← follow, ih h.2, List.append_assoc]
      rfl

/-- Going along names that may lead up leads along some of them. -/
theorem follow_mem {P : String → Prop} {base path : List String} (hbase : ∀ n ∈ base, P n)
    (hpath : ∀ n ∈ path, n ≠ ".." → P n) : ∀ n ∈ follow base path, P n := by
  induction path generalizing base with
  | nil => exact hbase
  | cons name path ih =>
      rw [List.forall_mem_cons] at hpath
      rw [follow, List.foldl_cons, ← follow]
      refine ih ?_ hpath.2
      split
      · exact fun n hn => hbase n (List.dropLast_subset _ hn)
      · next hup =>
        exact List.forall_mem_append.2 ⟨hbase, List.forall_mem_singleton.2 (hpath.1 hup)⟩

end Path

namespace Entry

/-- All names along which there is something below an entry have a property. -/
def NamesHave (P : String → Prop) (e : Entry) : Prop :=
  ∀ names c, e.get? names = some c → ∀ n ∈ names, P n

/-- **What is below an entry** is along the name of something that it holds. -/
theorem namesHave_of_children {P : String → Prop} {e : Entry}
    (h : ∀ p ∈ e.children, P p.1 ∧ p.2.NamesHave P) : e.NamesHave P := by
  rintro (_ | ⟨name, names⟩) c hc
  · nofun
  · obtain ⟨d, hd, hc⟩ := Option.bind_eq_some_iff.1 hc
    obtain ⟨hname, hbelow⟩ := h _ (mem_of_named? hd)
    exact List.forall_mem_cons.2 ⟨hname, hbelow names c hc⟩

/-- Nothing is below an entry that holds nothing. -/
theorem namesHave_of_empty {P : String → Prop} {e : Entry} (h : e.children = []) :
    e.NamesHave P :=
  namesHave_of_children fun p hp => by
    rw [h] at hp
    cases hp

/-- Nothing but the names of the one entry that it holds is below an entry. -/
theorem namesHave_of_single {P : String → Prop} {e c : Entry} {name : String}
    (h : e.children = [(name, c)]) (hname : P name) (hbelow : c.NamesHave P) : e.NamesHave P :=
  namesHave_of_children fun p hp => by
    rw [h, List.mem_singleton] at hp
    exact hp ▸ ⟨hname, hbelow⟩

end Entry

namespace FileTree

variable {t : FileTree}

/-- Where no link is met, a path is followed by name. -/
theorem LinkFree.resolveFrom (hfree : t.LinkFree) (depth : Nat) (active : List (List String))
    (place path : List String) :
    t.resolveFrom depth active place path = .ok (Path.follow place path) := by
  induction path generalizing place with
  | nil => rw [FileTree.resolveFrom, Path.follow, List.foldl_nil]
  | cons name path ih =>
      rw [FileTree.resolveFrom, Path.follow, List.foldl_cons, ← Path.follow]
      split
      · exact ih _
      · have hno := hfree.shape?_ne (place ++ [name])
        split
        · next target hlink => exact absurd (by rw [shape?, hlink]; rfl) (hno target)
        · exact ih _

/-- The path of the root is resolved to the root. -/
theorem resolve_root (t : FileTree) (base : List String) : t.resolve base "/" = .ok [] := by
  have hparts : Path.parts "/" = [] := by decide +kernel
  rw [FileTree.resolve, hparts, FileTree.resolveFrom, if_pos (by decide +kernel)]

/-- The root is always there. -/
theorem leads_root (t : FileTree) (base : List String) : t.leads base "/" = true := by
  have hparts : Path.parts "/" = [] := by decide +kernel
  rw [leads, entryAt, locate, hparts, if_pos (by decide +kernel), walkTo]
  rfl

/-- **In a tree without links a path is resolved by name alone.** -/
theorem LinkFree.resolve (hfree : t.LinkFree) (base : List String) (path : String) :
    t.resolve base path =
      .ok (Path.follow (if Path.isAbsolute path then [] else base) (Path.parts path)) := by
  rw [FileTree.resolve, hfree.resolveFrom]

/-- **The absolute path of a place is resolved to the place.** -/
theorem LinkFree.resolve_absolute (hfree : t.LinkFree) {place : List String}
    (hplace : ∀ n ∈ place, Path.IsName n) (base : List String) :
    t.resolve base (Path.absolute place) = .ok place := by
  rw [hfree.resolve, if_pos (Path.isAbsolute_absolute _), Path.parts_absolute hplace,
    Path.follow_eq fun n hn => (hplace n hn).2.2.1, List.nil_append]

/-! ## Names of entries and links -/

variable {P : String → Prop}

/-- All names of entries have a property. -/
def NamesHave (t : FileTree) (P : String → Prop) : Prop := t.root.NamesHave P

/-- All names that links lead along have a property, but for those that lead up. -/
def TargetsHave (t : FileTree) (P : String → Prop) : Prop :=
  ∀ place target, t.get? place = some (.link target) → ∀ n ∈ Path.parts target, n ≠ ".." → P n

/-- All names on a resolved way have a property, or all that are still to go but for those that lead
up. -/
def WayHas (P : String → Prop) : Except (List String) (List String) → Prop
  | .ok reached => ∀ n ∈ reached, P n
  | .error met => ∀ n ∈ met, n ≠ ".." → P n

/-- **A way is resolved** along its own names and those of links. -/
theorem TargetsHave.resolveFrom (ht : t.TargetsHave P) (depth : Nat) (active : List (List String))
    {place path : List String} (hplace : ∀ n ∈ place, P n) (hpath : ∀ n ∈ path, n ≠ ".." → P n) :
    WayHas P (t.resolveFrom depth active place path) := by
  have met : ∀ {place path}, (∀ n ∈ place, P n) → (∀ n ∈ path, n ≠ ".." → P n) →
      WayHas P (.error (place ++ path)) := fun hplace hpath =>
    List.forall_mem_append.2 ⟨fun n hn _ => hplace n hn, hpath⟩
  have start : ∀ {place : List String} (target : String), (∀ n ∈ place, P n) →
      ∀ n ∈ if Path.isAbsolute target then [] else place, P n := by
    intro place target hplace
    split
    · exact nofun
    · exact hplace
  fun_induction FileTree.resolveFrom t depth active place path with
  | case1 => exact hplace
  | case2 depth active place rest ih =>
      exact ih (fun n hn => hplace n (List.dropLast_subset _ hn)) (List.forall_mem_cons.1 hpath).2
  | case3 | case4 => exact met hplace hpath
  | case5 active place name rest hup target hlink hfree depth reached hreached ih ih' =>
      have hthere := ih (start target hplace) (ht _ _ hlink)
      rw [hreached] at hthere
      exact ih' hthere (List.forall_mem_cons.1 hpath).2
  | case6 active place name rest hup target hlink hfree depth way hway ih =>
      have hthere := ih (start target hplace) (ht _ _ hlink)
      rw [hway] at hthere
      exact List.forall_mem_append.2 ⟨hthere, (List.forall_mem_cons.1 hpath).2⟩
  | case7 depth active place name rest hup hlink ih =>
      obtain ⟨hname, hrest⟩ := List.forall_mem_cons.1 hpath
      exact ih (List.forall_mem_append.2 ⟨hplace, List.forall_mem_singleton.2 (hname hup)⟩) hrest

/-- **What a path is resolved to** is a place along names of the path, of links and of the folder
that it is seen from. -/
theorem TargetsHave.resolve (ht : t.TargetsHave P) {base : List String} {path : String}
    (hbase : ∀ n ∈ base, P n) (hpath : ∀ n ∈ Path.parts path, n ≠ ".." → P n)
    {place : List String} (h : t.resolve base path = .ok place) : ∀ n ∈ place, P n := by
  have hstart : ∀ n ∈ if Path.isAbsolute path then [] else base, P n := by
    split
    · exact nofun
    · exact hbase
  have hnames := ht.resolveFrom t.root.linkCount [] hstart hpath
  rw [FileTree.resolve] at h
  split at h
  · next reached hreached =>
    rw [hreached] at hnames
    cases h
    exact hnames
  · next met hmet =>
    rw [hmet] at hnames
    dsimp only at h
    split at h
    · cases h
    · cases h
      exact Path.follow_mem nofun hnames

end FileTree

end ScriptScrub
