import Mathlib.Data.List.Nodup
import ScriptScrub.Proofs.FileTree.Entries

/-!
# Where paths lead

Paths lead to the same places in trees that are alike (`Alike.locate`), so giving a file another
content moves nothing. In a tree whose folders are in order (`WellNamed`) the absolute path of an
entry that is no link leads to this entry (`locate_absolute`), and writing gives exactly the file
that the path leads to another content (`write_eq_ok_iff`).
-/

namespace ScriptScrub

namespace Entry

/-- Induction over an entry from what a folder holds to the folder. -/
theorem induct {P : Entry → Prop} (file : ∀ content, P (file content))
    (link : ∀ target, P (link target)) (folder : ∀ es, (∀ p ∈ es, P p.2) → P (folder es))
    (e : Entry) : P e :=
  match e with
  | .file content => file content
  | .link target => link target
  | .folder es => folder es fun p _ => induct file link folder p.2
termination_by e
decreasing_by
  rename_i hp
  have := List.sizeOf_lt_of_mem hp
  cases p
  simp only [Prod.mk.sizeOf_spec, Entry.folder.sizeOf_spec] at this ⊢
  omega

/-! ## Folders in order -/

mutual

/-- In every folder the entries have names that entries can have, each a name of its own. -/
def wellNamed : Entry → Bool
  | file _ => true
  | link _ => true
  | folder es => decide (es.map (·.1)).Nodup && wellNamedAll es

/-- The names of some entries are in order, and so is what is in them. -/
def wellNamedAll : List (String × Entry) → Bool
  | [] => true
  | (name, e) :: es => decide (Path.IsName name) && wellNamed e && wellNamedAll es

end

/-- A folder is in order if its names are and all that it holds is. -/
theorem wellNamed_folder {es : List (String × Entry)} :
    (folder es).wellNamed = true ↔
      (es.map (·.1)).Nodup ∧ ∀ p ∈ es, Path.IsName p.1 ∧ p.2.wellNamed = true := by
  have among : ∀ es : List (String × Entry), wellNamedAll es = true ↔
      ∀ p ∈ es, Path.IsName p.1 ∧ p.2.wellNamed = true := by
    intro es
    induction es with
    | nil => simp [wellNamedAll]
    | cons p es ih => simp [wellNamedAll, ih]
  rw [wellNamed, Bool.and_eq_true, decide_eq_true_eq, among]

/-- A folder is without links if all that it holds is. -/
theorem linkCount_folder {es : List (String × Entry)} :
    (folder es).linkCount = 0 ↔ ∀ p ∈ es, p.2.linkCount = 0 := by
  have among : ∀ es : List (String × Entry), linkCountAll es = 0 ↔
      ∀ p ∈ es, p.2.linkCount = 0 := by
    intro es
    induction es with
    | nil => simp [linkCountAll]
    | cons p es ih => simp [linkCountAll, ih]
  rw [linkCount, among]

/-- An entry that is found by its name is in the folder. -/
theorem mem_of_named? {es : List (String × Entry)} {name : String} {e : Entry}
    (h : named? es name = some e) : (name, e) ∈ es := by
  induction es with
  | nil => cases h
  | cons p es ih =>
      rw [named?_cons] at h
      split at h
      · next hname =>
        cases h
        subst hname
        exact List.mem_cons_self
      · exact List.mem_cons_of_mem _ (ih h)

/-- An entry of a folder is found by its name if no other has this name. -/
theorem named?_of_mem {es : List (String × Entry)} (hes : (es.map (·.1)).Nodup)
    {p : String × Entry} (hp : p ∈ es) : named? es p.1 = some p.2 := by
  induction es with
  | nil => cases hp
  | cons q es ih =>
      rw [List.map_cons, List.nodup_cons] at hes
      rw [named?_cons]
      rcases List.mem_cons.1 hp with rfl | hp
      · rw [if_pos rfl]
      · have hne : q.1 ≠ p.1 := fun hname => hes.1 (hname ▸ List.mem_map_of_mem hp)
        rw [if_neg hne, ih hes.2 hp]

/-- What is in an entry that is in order is in order, and the way to it is made of names. -/
theorem wellNamed_of_get? {e c : Entry} (he : e.wellNamed = true) {p : List String}
    (h : e.get? p = some c) : (∀ n ∈ p, Path.IsName n) ∧ c.wellNamed = true := by
  induction p generalizing e with
  | nil =>
      cases h
      exact ⟨nofun, he⟩
  | cons name p ih =>
      obtain ⟨d, hd, hc⟩ := Option.bind_eq_some_iff.1 h
      cases e with
      | file _ | link _ => cases hd
      | folder es =>
          obtain ⟨hname, hwell⟩ := (wellNamed_folder.1 he).2 _ (mem_of_named? hd)
          obtain ⟨hnames, hcwell⟩ := ih hwell hc
          exact ⟨List.forall_mem_cons.2 ⟨hname, hnames⟩, hcwell⟩

/-- There is no link in an entry without links. -/
theorem linkCount_of_get? {e c : Entry} (he : e.linkCount = 0) {p : List String}
    (h : e.get? p = some c) : c.linkCount = 0 := by
  induction p generalizing e with
  | nil =>
      cases h
      exact he
  | cons name p ih =>
      obtain ⟨d, hd, hc⟩ := Option.bind_eq_some_iff.1 h
      cases e with
      | file _ | link _ => cases hd
      | folder es => exact ih (linkCount_folder.1 he _ (mem_of_named? hd)) hc

end Entry

namespace FileTree

/-- Every folder of the tree is in order. -/
def WellNamed (t : FileTree) : Prop := t.root.wellNamed = true

/-- No entry of the tree is a link. -/
def LinkFree (t : FileTree) : Prop := t.root.linkCount = 0

instance (t : FileTree) : Decidable t.WellNamed := inferInstanceAs (Decidable (_ = true))

instance (t : FileTree) : Decidable t.LinkFree := inferInstanceAs (Decidable (_ = 0))

variable {t t' : FileTree}

/-- The way to what stands in a tree in order is made of names. -/
theorem WellNamed.isName (h : t.WellNamed) {place : List String} {e : Entry}
    (he : t.get? place = some e) : ∀ n ∈ place, Path.IsName n :=
  (Entry.wellNamed_of_get? h he).1

/-- In a tree without links nothing is a link. -/
theorem LinkFree.shape?_ne (h : t.LinkFree) (place : List String) (target : String) :
    t.shape? place ≠ some (.link target) := by
  intro hlink
  cases Entry.linkCount_of_get? h (shape?_eq_link.1 hlink)

/-! ## Places -/

/-- There is a folder at every place on the way to something. -/
theorem shape?_of_get?_append {place rest : List String} {name : String} {e : Entry}
    (h : t.get? (place ++ name :: rest) = some e) : t.shape? place = some .folder := by
  rw [get?, Entry.get?_append] at h
  obtain ⟨c, hc, he⟩ := Option.bind_eq_some_iff.1 h
  rw [shape?, get?, hc, Option.map_some, Entry.shape_of_get?_cons he]

/-- What a folder holds under a name is what stands at the place below. -/
theorem get?_concat {place : List String} {es : List (String × Entry)}
    (h : t.get? place = some (.folder es)) (name : String) :
    t.get? (place ++ [name]) = Entry.named? es name := by
  rw [get?] at h ⊢
  rw [Entry.get?_append, h, Option.bind_some, Entry.get?]
  exact Option.bind_fun_some _

/-! ## Following a path -/

/-- **A step along a path** is decided by the shapes of the entries. -/
theorem walkTo_cons (t : FileTree) (links : Nat) (place : List String) (name : String)
    (rest : List String) :
    t.walkTo links place (name :: rest) =
      if t.shape? place = some .folder then
        if name = ".." then t.walkTo links place.dropLast rest
        else match t.shape? (place ++ [name]) with
          | none => .error .missing
          | some (.link target) =>
            match links with
            | 0 => .error .tooManyLinks
            | links + 1 =>
              t.walkTo links (if Path.isAbsolute target then [] else place)
                (Path.parts target ++ rest)
          | some _ => t.walkTo links (place ++ [name]) rest
      else .error .notFolder := by
  rw [walkTo, shape?]
  rcases hplace : t.get? place with _ | (_ | _ | es)
  · rfl
  · rfl
  · rfl
  · dsimp only
    rw [shape?, get?_concat hplace, Option.map_some, Entry.shape, if_pos rfl]
    rcases Entry.named? es name with _ | (_ | _ | _) <;> rfl

/-- **Paths lead to the same places in trees that are alike.** -/
theorem Alike.walkTo (h : Alike t t') (links : Nat) (place path : List String) :
    t'.walkTo links place path = t.walkTo links place path := by
  induction links using Nat.strongRecOn generalizing place path with
  | ind links ihlinks =>
    induction path generalizing place with
    | nil => rw [FileTree.walkTo, FileTree.walkTo]
    | cons name rest ih =>
        rw [walkTo_cons, walkTo_cons, h place, h (place ++ [name]), ih, ih]
        cases links with
        | zero => rfl
        | succ links => simp only [ihlinks links (Nat.lt_succ_self _)]

/-- A path leads to the same place in trees that are alike. -/
theorem Alike.locate (h : Alike t t') (base : List String) (path : String) :
    t'.locate base path = t.locate base path :=
  h.walkTo _ _ _

/-- Names lead from a place to what stands at their end, unless it is a link. -/
theorem walkTo_of_get? {links : Nat} {place names : List String} {e : Entry}
    (hnames : ∀ n ∈ names, n ≠ "..") (he : t.get? (place ++ names) = some e)
    (hlink : ∀ target, e.shape ≠ .link target) :
    t.walkTo links place names = .ok (place ++ names) := by
  induction names generalizing place with
  | nil => rw [walkTo, List.append_nil]
  | cons name rest ih =>
      have hsplit : place ++ name :: rest = place ++ [name] ++ rest := by simp
      have hrest := ih (List.forall_mem_cons.1 hnames).2 (hsplit ▸ he)
      rw [walkTo_cons, if_pos (shape?_of_get?_append he),
        if_neg (List.forall_mem_cons.1 hnames).1, hsplit, ← hrest]
      have hshape : ∃ s, t.shape? (place ++ [name]) = some s ∧ ∀ target, s ≠ .link target := by
        cases rest with
        | nil => exact ⟨e.shape, by rw [shape?, he, Option.map_some], hlink⟩
        | cons _ _ => exact ⟨.folder, shape?_of_get?_append (hsplit ▸ he), nofun⟩
      obtain ⟨s, hs, hno⟩ := hshape
      rw [hs]
      cases s with
      | link target => exact absurd rfl (hno target)
      | file | folder => rfl

/-- Names lead to the place at their end if no link is met. -/
theorem eq_of_walkTo {links : Nat} {place names x : List String}
    (h : t.walkTo links place names = .ok x) (hnames : ∀ n ∈ names, n ≠ "..")
    (hlink : ∀ q, q <+: names → q ≠ [] → ∀ target, t.shape? (place ++ q) ≠ some (.link target)) :
    x = place ++ names := by
  induction names generalizing place with
  | nil =>
      rw [walkTo] at h
      cases h
      rw [List.append_nil]
  | cons name rest ih =>
      obtain ⟨hname, hrest⟩ := List.forall_mem_cons.1 hnames
      rw [walkTo_cons, if_neg hname] at h
      split at h
      case isFalse => cases h
      split at h
      · cases h
      · next target hs => exact absurd hs (hlink [name] (by simp) (by simp) target)
      · have hend := ih h hrest fun q hq _ target => by
          simpa using hlink (name :: q) (by simpa using hq) (List.cons_ne_nil _ _) target
        rwa [List.append_assoc] at hend

/-- **An absolute path leads to its place** in a tree in order, unless there is a link. -/
theorem locate_absolute (hwell : t.WellNamed) {place : List String} {e : Entry}
    (he : t.get? place = some e) (hlink : ∀ target, e.shape ≠ .link target) (base : List String) :
    t.locate base (Path.absolute place) = .ok place := by
  have hnames := hwell.isName he
  rw [locate, if_pos (Path.isAbsolute_absolute _), Path.parts_absolute hnames]
  exact walkTo_of_get? (fun n hn => (hnames n hn).2.2.1) he hlink

/-! ## Files -/

/-- **Writing** gives the file that the path leads to another content, and does nothing else. -/
theorem write_eq_ok_iff {base : List String} {path : String} {content : Bytes} :
    t.write base path content = .ok t' ↔
      ∃ place old, t.locate base path = .ok place ∧ t.get? place = some (.file old) ∧
        t' = t.put place (.file content) := by
  rw [write]
  cases hplace : t.locate base path with
  | error e => exact iff_of_false nofun (by rintro ⟨_, _, h, -⟩; cases h)
  | ok place =>
      simp only [bind, Except.bind, Except.ok.injEq, exists_and_left, ↓existsAndEq, true_and]
      rcases hfile : t.get? place with _ | (old | _ | _)
      · exact iff_of_false nofun (by rintro ⟨_, h, -⟩; cases h)
      · simp [pure, Except.pure, eq_comm]
      · exact iff_of_false nofun (by rintro ⟨_, h, -⟩; cases h)
      · exact iff_of_false nofun (by rintro ⟨_, h, -⟩; cases h)

/-- **What is read** is told by the content and the shape at the place that the path leads to. -/
theorem read_eq (t : FileTree) (base : List String) (path : String) :
    t.read base path = (t.locate base path).bind fun place =>
      match t.content? place, t.shape? place with
      | some content, _ => .ok content
      | none, some _ => .error .isFolder
      | none, none => .error .missing := by
  rw [read, entryAt]
  cases t.locate base path with
  | error e => rfl
  | ok place =>
      simp only [Except.bind, bind, content?, shape?]
      rcases t.get? place with _ | (_ | _ | _) <;> rfl

/-- In a folder that holds files only, a file is found by its name alone. -/
theorem mem_of_content? {place : List String} {content : Bytes}
    (hflat : ∀ p ∈ t.entries, ∃ bytes, p.2 = .file bytes) (h : t.content? place = some content) :
    ∃ name, place = [name] ∧ (name, .file content) ∈ t.entries := by
  have hfile := content?_eq_some.1 h
  cases place with
  | nil => cases hfile
  | cons name rest =>
      obtain ⟨e, he, hrest⟩ := Option.bind_eq_some_iff.1 hfile
      have hmem := Entry.mem_of_named? he
      obtain ⟨bytes, rfl⟩ := hflat _ hmem
      cases rest with
      | nil =>
          cases hrest
          exact ⟨name, rfl, hmem⟩
      | cons _ _ => cases hrest

/-- The file that a path leads to is read. -/
theorem read_of_locate {base place : List String} {path : String} {content : Bytes}
    (hplace : t.locate base path = .ok place) (h : t.content? place = some content) :
    t.read base path = .ok content := by
  simp only [read_eq, hplace, Except.bind, h]

/-- A file is read by an absolute path that spells its place. -/
theorem read_of_get? {path : String} {content : Bytes} (base names : List String)
    (hfile : t.get? names = some (.file content)) (hparts : Path.parts path = names)
    (hnames : ∀ n ∈ names, n ≠ "..") (habsolute : Path.isAbsolute path = true) :
    t.read base path = .ok content := by
  have hplace : t.locate base path = .ok names := by
    rw [locate, if_pos habsolute, hparts]
    exact walkTo_of_get? hnames hfile nofun
  exact read_of_locate hplace (content?_eq_some.2 hfile)

/-- A path that is read leads to something. -/
theorem leads_of_read {base : List String} {path : String} {content : Bytes}
    (h : t.read base path = .ok content) : t.leads base path = true := by
  rw [read] at h
  rw [leads]
  cases hentry : t.entryAt base path with
  | error e =>
      rw [hentry] at h
      cases h
  | ok e => rfl

/-- Trees that are alike are read alike where they have the same content. -/
theorem Alike.read (h : Alike t t') {base : List String} {path : String}
    (hcontent : ∀ place, t.locate base path = .ok place → t'.content? place = t.content? place) :
    t'.read base path = t.read base path := by
  rw [read_eq, read_eq, h.locate]
  cases hplace : t.locate base path with
  | error e => rfl
  | ok place => simp only [Except.bind, hcontent place hplace, h place]

end FileTree

end ScriptScrub
