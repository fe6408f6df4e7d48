import ScriptScrub.FileTree.Walk
import ScriptScrub.Proofs.FileTree.Lookup

/-!
# What a walk finds

A walk through a tree in order finds exactly the names that lead, by folders that are all entered,
to a file or to a link that leads to no folder (`mem_namesBelow_iff`), and it finds no name twice
(`nodup_namesBelow`). Folders that hold nothing that is wanted need not be entered
(`filter_namesBelow`).
-/

namespace ScriptScrub

namespace Entry

variable {enter isFolderLink : List String → Bool}

/-- A walk that comes to the entry lists it: a file, or a link that does not lead to a folder. -/
def isListed (leadsToFolder : Bool) : Entry → Bool
  | file _ => true
  | link _ => !leadsToFolder
  | folder _ => false

/-- No folder is listed. -/
theorem shape_ne_of_isListed {e : Entry} {leadsToFolder : Bool}
    (h : e.isListed leadsToFolder = true) : e.shape ≠ .folder := by
  cases e with
  | file _ | link _ => nofun
  | folder es => cases h

variable (enter isFolderLink) in
/-- The way leads from the entry at `here` to something that is listed, and the walk enters every
folder on it. -/
structure Found (here : List String) (e : Entry) (way : List String) : Prop where
  entry : ∃ c, e.get? way = some c ∧ c.isListed (isFolderLink (here ++ way)) = true
  entered : ∀ q, q <+: way → q ≠ way → enter (here ++ q) = true

/-- The names among some entries are found one entry after the other. -/
theorem namesAmong_eq (here : List String) (es : List (String × Entry)) :
    namesAmong enter isFolderLink here es =
      es.flatMap fun p => namesAt enter isFolderLink (here ++ [p.1]) p.2 := by
  induction es with
  | nil => rfl
  | cons p es ih => rw [namesAmong, ih, List.flatMap_cons]

/-- What a walk finds is at or below the place where it begins. -/
theorem prefix_of_mem_namesAt {e : Entry} {here names : List String}
    (h : names ∈ namesAt enter isFolderLink here e) : here <+: names := by
  induction e using Entry.induct generalizing here with
  | file content =>
      rw [namesAt, List.mem_singleton] at h
      exact h ▸ List.prefix_rfl
  | link target =>
      rw [namesAt] at h
      split at h
      · cases h
      · exact List.mem_singleton.1 h ▸ List.prefix_rfl
  | folder es ih =>
      rw [namesAt] at h
      split at h
      · rw [namesAmong_eq, List.mem_flatMap] at h
        obtain ⟨p, hp, hnames⟩ := h
        exact (List.prefix_append _ _).trans (ih p hp hnames)
      · cases h

/-- What is kept of the names among some entries is what is kept in each of these. -/
theorem filter_namesAmong {keep enter' : List String → Bool} {es : List (String × Entry)}
    (here : List String)
    (h : ∀ p ∈ es, (namesAt enter isFolderLink (here ++ [p.1]) p.2).filter keep =
      (namesAt enter' isFolderLink (here ++ [p.1]) p.2).filter keep) :
    (namesAmong enter isFolderLink here es).filter keep =
      (namesAmong enter' isFolderLink here es).filter keep := by
  rw [namesAmong_eq, namesAmong_eq, List.filter_flatMap, List.filter_flatMap]
  exact List.flatMap_congr h

/-- **Folders that hold nothing that is kept** need not be entered. -/
theorem filter_namesAt {keep : List String → Bool}
    (hskip : ∀ here way, enter here = false → way ≠ [] → keep (here ++ way) = false) (e : Entry)
    (here : List String) :
    (namesAt enter isFolderLink here e).filter keep =
      (namesAt (fun _ => true) isFolderLink here e).filter keep := by
  induction e using Entry.induct generalizing here with
  | file | link => rfl
  | folder es ih =>
      rw [namesAt, namesAt, if_pos rfl]
      split
      · exact filter_namesAmong here fun p hp => ih p hp _
      · next henter =>
        refine (List.filter_eq_nil_iff.2 fun names hnames => ?_).symm
        rw [namesAmong_eq, List.mem_flatMap] at hnames
        obtain ⟨p, -, hnames⟩ := hnames
        obtain ⟨way, rfl⟩ := prefix_of_mem_namesAt hnames
        rw [List.append_assoc, hskip here _ (Bool.eq_false_iff.2 henter) (by simp)]
        exact Bool.false_ne_true

/-- What is at the end of no names at all is what the way begins with. -/
theorem found_nil {here : List String} {e : Entry} (h : e.isListed (isFolderLink here) = true) :
    Found enter isFolderLink here e [] :=
  ⟨⟨e, rfl, by rwa [List.append_nil]⟩, fun _ hq hne => absurd (List.prefix_nil.1 hq) hne⟩

/-- What is found in an entry of a folder is below the folder. -/
theorem Found.below {es : List (String × Entry)} {p : String × Entry} {here way : List String}
    (h : Found enter isFolderLink (here ++ [p.1]) p.2 way) (hes : (es.map (·.1)).Nodup)
    (hp : p ∈ es) :
    (∃ c, (folder es).get? (p.1 :: way) = some c ∧
        c.isListed (isFolderLink (here ++ p.1 :: way)) = true) ∧
      ∀ q, q <+: p.1 :: way → q ≠ [] → q ≠ p.1 :: way → enter (here ++ q) = true := by
  obtain ⟨⟨c, hc, hlisted⟩, hentered⟩ := h
  refine ⟨⟨c, ?_, ?_⟩, fun q hq hnil hne => ?_⟩
  · rw [get?, children, named?_of_mem hes hp, Option.bind_some, hc]
  · rwa [List.append_assoc] at hlisted
  · rcases List.prefix_cons_iff.1 hq with rfl | ⟨q, rfl, hway⟩
    · exact absurd rfl hnil
    · have := hentered q hway fun heq => hne (by rw [heq])
      rwa [List.append_assoc] at this

/-- **What a walk finds** begins with the place where the walk begins, and is found. -/
theorem found_of_mem_namesAt {e : Entry} (hwell : e.wellNamed = true) {here names : List String}
    (h : names ∈ namesAt enter isFolderLink here e) :
    ∃ way, names = here ++ way ∧ Found enter isFolderLink here e way := by
  induction e using Entry.induct generalizing here names with
  | file content =>
      rw [namesAt, List.mem_singleton] at h
      exact ⟨[], by rw [h, List.append_nil], found_nil rfl⟩
  | link target =>
      rw [namesAt] at h
      split at h
      · cases h
      · next hlink =>
        rw [List.mem_singleton] at h
        exact ⟨[], by rw [h, List.append_nil], found_nil (by simp [isListed, hlink])⟩
  | folder es ih =>
      rw [namesAt] at h
      split at h
      · next henter =>
        rw [namesAmong_eq, List.mem_flatMap] at h
        obtain ⟨p, hp, hnames⟩ := h
        obtain ⟨hnodup, heach⟩ := wellNamed_folder.1 hwell
        obtain ⟨way, rfl, hfound⟩ := ih p hp (heach p hp).2 hnames
        obtain ⟨hentry, hentered⟩ := hfound.below hnodup hp
        refine ⟨p.1 :: way, by simp, hentry, fun q hq hne => ?_⟩
        rcases eq_or_ne q [] with rfl | hnil
        · rwa [List.append_nil]
        · exact hentered q hq hnil hne
      · cases h

/-- **What is to be found** is found. -/
theorem Found.mem_namesAt {e : Entry} {here way : List String}
    (h : Found enter isFolderLink here e way) :
    here ++ way ∈ namesAt enter isFolderLink here e := by
  induction way generalizing e here with
  | nil =>
      obtain ⟨⟨c, hc, hlisted⟩, -⟩ := h
      cases hc
      rw [List.append_nil] at hlisted ⊢
      cases e with
      | file content => exact List.mem_singleton_self _
      | link target =>
          rw [namesAt, if_neg (by simpa [isListed] using hlisted)]
          exact List.mem_singleton_self _
      | folder es => cases hlisted
  | cons name way ih =>
      obtain ⟨⟨d, hway, hlisted⟩, hentered⟩ := h
      obtain ⟨c, hc, hd⟩ := Option.bind_eq_some_iff.1 hway
      cases e with
      | file _ | link _ => cases hc
      | folder es =>
          have henter : enter here = true := by
            simpa using hentered [] List.nil_prefix (List.cons_ne_nil _ _).symm
          have hmem : here ++ [name] ++ way ∈
              namesAt enter isFolderLink (here ++ [name]) c := by
            refine ih ⟨⟨d, hd, by simpa using hlisted⟩, fun q hq hne => ?_⟩
            simpa using hentered (name :: q) (by simpa using hq) (by simpa using hne)
          rw [List.append_assoc] at hmem
          rw [namesAt, if_pos henter, namesAmong_eq]
          exact List.mem_flatMap.2 ⟨_, mem_of_named? hc, hmem⟩

/-- No name is found twice among entries with names of their own if none is found twice in one of
them: what is found in two of them differs in the name of the entry. -/
theorem nodup_namesAmong {es : List (String × Entry)} (hwell : (folder es).wellNamed = true)
    {here : List String}
    (h : ∀ p ∈ es, (namesAt enter isFolderLink (here ++ [p.1]) p.2).Nodup) :
    (namesAmong enter isFolderLink here es).Nodup := by
  obtain ⟨hnodup, heach⟩ := wellNamed_folder.1 hwell
  rw [namesAmong_eq, List.nodup_flatMap]
  refine ⟨h, List.Pairwise.imp_of_mem ?_ (List.pairwise_map.1 hnodup)⟩
  intro p q hp hq hne names hnames hnames'
  obtain ⟨way, rfl, -⟩ := found_of_mem_namesAt (heach p hp).2 hnames
  obtain ⟨way', heq, -⟩ := found_of_mem_namesAt (heach q hq).2 hnames'
  rw [List.append_assoc, List.append_assoc, List.append_cancel_left_eq] at heq
  exact hne (List.cons.inj heq).1

/-- **A walk finds no name twice.** -/
theorem nodup_namesAt {e : Entry} (hwell : e.wellNamed = true) (here : List String) :
    (namesAt enter isFolderLink here e).Nodup := by
  induction e using Entry.induct generalizing here with
  | file content => exact List.nodup_singleton _
  | link target =>
      rw [namesAt]
      split
      · exact List.nodup_nil
      · exact List.nodup_singleton _
  | folder es ih =>
      rw [namesAt]
      split
      · exact nodup_namesAmong hwell fun p hp => ih p hp ((wellNamed_folder.1 hwell).2 p hp).2 _
      · exact List.nodup_nil

end Entry

namespace FileTree

variable {t : FileTree} {enter : List String → Bool} {place : List String}

/-- A walk below a place goes over the entries of a folder, if it finds anything. -/
theorem namesBelow_eq (t : FileTree) (enter : List String → Bool) (place : List String) :
    t.namesBelow enter place = [] ∨ ∃ es, t.get? place = some (.folder es) ∧
      t.namesBelow enter place =
        Entry.namesAmong enter (fun here => t.leadsToFolder (place ++ here)) [] es := by
  rw [namesBelow]
  rcases t.get? place with _ | (_ | _ | es)
  · exact .inl rfl
  · exact .inl rfl
  · exact .inl rfl
  · exact .inr ⟨es, rfl, rfl⟩

/-- A place that a path does not lead to is no folder. -/
theorem leadsToFolder_of_locate_error {e : FileError}
    (h : t.locate [] (Path.absolute place) = .error e) : t.leadsToFolder place = false := by
  rw [leadsToFolder, entryAt, h]
  rfl

/-- In a folder with nothing but a link, its name is found unless it leads to a folder. -/
theorem namesBelow_link {name target : String} (enter : List String → Bool)
    (h : leadsToFolder ⟨[(name, .link target)]⟩ [name] = false) :
    namesBelow ⟨[(name, .link target)]⟩ enter [] = [[name]] := by
  change (if leadsToFolder ⟨[(name, .link target)]⟩ [name] then [] else [[name]]) ++ [] = [[name]]
  rw [h]
  rfl

/-- **What is found below a folder** leads on to a file or to a link that leads to no folder, and
every folder on the way is entered. -/
theorem mem_namesBelow_iff (hwell : t.WellNamed) {names : List String} :
    names ∈ t.namesBelow enter place ↔ names ≠ [] ∧
      (∃ e, t.get? (place ++ names) = some e ∧
        e.isListed (t.leadsToFolder (place ++ names)) = true) ∧
      ∀ q, q <+: names → q ≠ [] → q ≠ names → enter q = true := by
  constructor
  · intro h
    rcases t.namesBelow_eq enter place with hnil | ⟨es, hes, heq⟩
    · rw [hnil] at h
      cases h
    · rw [heq, Entry.namesAmong_eq, List.mem_flatMap] at h
      obtain ⟨p, hp, hnames⟩ := h
      obtain ⟨hnodup, heach⟩ := Entry.wellNamed_folder.1 (Entry.wellNamed_of_get? hwell hes).2
      obtain ⟨way, rfl, hfound⟩ := Entry.found_of_mem_namesAt (heach p hp).2 hnames
      obtain ⟨⟨c, hc, hlisted⟩, hentered⟩ := hfound.below hnodup hp
      refine ⟨List.cons_ne_nil _ _, ⟨c, ?_, hlisted⟩, hentered⟩
      rw [get?] at hes ⊢
      rw [Entry.get?_append, hes]
      exact hc
  · rintro ⟨hne, ⟨d, hd, hlisted⟩, hentered⟩
    obtain ⟨name, way, rfl⟩ := List.exists_cons_of_ne_nil hne
    rw [get?, Entry.get?_append, Option.bind_eq_some_iff] at hd
    obtain ⟨e, he, hd⟩ := hd
    obtain ⟨c, hc, hd⟩ := Option.bind_eq_some_iff.1 hd
    have hmem : [name] ++ way ∈
        Entry.namesAt enter (fun here => t.leadsToFolder (place ++ here)) [name] c := by
      refine Entry.Found.mem_namesAt ⟨⟨d, hd, hlisted⟩, fun q hq hne => ?_⟩
      exact hentered (name :: q) (by simpa using hq) (List.cons_ne_nil _ _) (by simpa using hne)
    rw [namesBelow, get?, he]
    dsimp only
    rw [Entry.namesAmong_eq]
    exact List.mem_flatMap.2 ⟨_, Entry.mem_of_named? hc, hmem⟩

/-- **What is kept of a walk** does not hang on the folders that hold nothing of it. -/
theorem filter_namesBelow (t : FileTree) (place : List String) {keep : List String → Bool}
    (hskip : ∀ here way, enter here = false → way ≠ [] → keep (here ++ way) = false) :
    (t.namesBelow enter place).filter keep =
      (t.namesBelow (fun _ => true) place).filter keep := by
  rw [namesBelow, namesBelow]
  split
  · exact Entry.filter_namesAmong [] fun p _ => Entry.filter_namesAt hskip p.2 _
  · rfl

/-- What is found below a folder leads on to something that is no folder. -/
theorem found_of_mem_namesBelow (hwell : t.WellNamed) {names : List String}
    (h : names ∈ t.namesBelow enter place) :
    (∃ e, t.get? (place ++ names) = some e ∧ e.shape ≠ .folder) ∧
      ∀ q, q <+: names → q ≠ [] → q ≠ names → enter q = true := by
  obtain ⟨-, ⟨e, he, hlisted⟩, hentered⟩ := (mem_namesBelow_iff hwell).1 h
  exact ⟨⟨e, he, Entry.shape_ne_of_isListed hlisted⟩, hentered⟩

/-- Nothing is found twice below a folder. -/
theorem nodup_namesBelow (hwell : t.WellNamed) : (t.namesBelow enter place).Nodup := by
  rcases t.namesBelow_eq enter place with hnil | ⟨es, hes, heq⟩
  · rw [hnil]
    exact List.nodup_nil
  · have hfolder := (Entry.wellNamed_of_get? hwell hes).2
    rw [heq]
    exact Entry.nodup_namesAmong hfolder fun p hp =>
      Entry.nodup_namesAt ((Entry.wellNamed_folder.1 hfolder).2 p hp).2 _

end FileTree

end ScriptScrub
