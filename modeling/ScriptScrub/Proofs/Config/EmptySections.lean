import Mathlib.Data.List.Forall2
import ScriptScrub.Proofs.Config.Given

/-!
# Sections with nothing in them

What an empty section does to a document that had none is told by what the section gives before and
after it (`load_empty_section`). A table without entries adds nothing, and only mends a section that
is no table. Nothing in the place of a table throws away what the documents before say about the
section, and ends the loading unless a source after it has the section (`load_drops_section`).
-/

namespace ScriptScrub.Config

/-! ## Documents -/

/-- What the document at a path has to say: its entries, or nothing. -/
def said (files : FileTree) (here : List String) (path : String) : Entries :=
  (tableAt files here path).getD []

/-- The document at a path says the same in another tree. -/
def SaysSame (files files' : FileTree) (here : List String) (path : String) : Prop :=
  (documentAt files' here path).map (·.1) = (documentAt files here path).map (·.1)

/-- The document at a path does not have a section `s`, and in another tree it has one with the
value `v` in addition. -/
def SaysMore (s : String) (v : Value) (files files' : FileTree) (here : List String)
    (path : String) : Prop :=
  ∃ front back told told', documentAt files here path = .ok (front ++ back, told) ∧
    (front ++ back).named? s = none ∧
    documentAt files' here path = .ok (front ++ (.text s, v) :: back, told')

section
variable {files files' : FileTree} {here : List String} {path s : String} {v : Value}

/-- What a document says is clean. -/
theorem clean_said : (said files here path).Clean := by
  rw [said]
  cases htable : tableAt files here path with
  | none => exact Entries.sectioned_nil.clean
  | some es =>
      obtain ⟨hdistinct, hfields⟩ := distinct_of_tableAt htable
      refine ⟨hdistinct, fun s _ fields hv => ?_⟩
      obtain ⟨key, hkey⟩ := Entries.mem_of_named? hv
      exact hfields key fields hkey

/-- A document that says the same can be used as well. -/
theorem SaysSame.used_iff (h : SaysSame files files' here path) :
    (∃ added, documentAt files' here path = .ok added) ↔
      ∃ added, documentAt files here path = .ok added := by
  rw [SaysSame] at h
  cases hd : documentAt files here path <;> cases hd' : documentAt files' here path <;>
    simp_all [Except.map]

/-- A document that can be used says the same. -/
theorem SaysSame.said_eq (h : SaysSame files files' here path)
    (hused : ∃ added, documentAt files here path = .ok added) :
    said files' here path = said files here path := by
  obtain ⟨⟨es, told⟩, hd⟩ := hused
  obtain ⟨⟨es', told'⟩, hd'⟩ := h.used_iff.2 ⟨_, hd⟩
  rw [SaysSame, hd, hd'] at h
  have hes : es' = es := Except.ok.inj h
  rw [said, said, ← documentAt_eq_ok hd, ← documentAt_eq_ok hd', hes]

/-- What a document says more. -/
theorem SaysMore.named? (h : SaysMore s v files files' here path) :
    (said files here path).named? s = none ∧ ∀ name, (said files' here path).named? name =
      if s = name then some v else (said files here path).named? name := by
  obtain ⟨front, back, told, told', hd, habsent, hd'⟩ := h
  rw [said, said, ← documentAt_eq_ok hd, ← documentAt_eq_ok hd']
  exact ⟨habsent, Entries.named?_insert habsent v⟩

/-- The keys of what a document says more are texts if the others are. -/
theorem SaysMore.all_isText (h : SaysMore s v files files' here path) :
    (said files' here path).all (·.1.isText) = (said files here path).all (·.1.isText) := by
  obtain ⟨front, back, told, told', hd, -, hd'⟩ := h
  rw [said, said, ← documentAt_eq_ok hd, ← documentAt_eq_ok hd', List.all_append, List.all_append,
    List.all_cons]
  rfl

/-- Nothing ends the loading if every document can be used, and its keys are texts. -/
theorem loadable_iff_said {home : List String} {asked : Option String} :
    Loadable files here home asked ↔ ∀ path ∈ documentPaths here home asked,
      (∃ added, documentAt files here path = .ok added) ∧
        (said files here path).all (·.1.isText) = true := by
  constructor
  · rintro ⟨hused, hkeys⟩ path hpath
    refine ⟨hused path hpath, ?_⟩
    rw [said]
    cases htable : tableAt files here path with
    | none => rfl
    | some es => exact hkeys es (List.mem_filterMap.2 ⟨path, hpath, htable⟩)
  · intro h
    refine ⟨fun path hpath => (h path hpath).1, fun es hes => ?_⟩
    obtain ⟨path, hpath, htable⟩ := List.mem_filterMap.1 hes
    have hkeys := (h path hpath).2
    rwa [said, htable] at hkeys

/-- Merging the tables of some documents is merging what the documents say. -/
theorem mergedWith_said (files : FileTree) (here paths : List String) (env : Environment) :
    mergedWith (paths.filterMap (tableAt files here)) env =
      mergedWith (paths.map (said files here)) env := by
  have hmerged : ∀ base, (paths.filterMap (tableAt files here)).foldl merge base =
      (paths.map (said files here)).foldl merge base := by
    induction paths with
    | nil => exact fun base => rfl
    | cons path paths ih =>
        intro base
        rw [List.filterMap_cons, List.map_cons, List.foldl_cons, ← ih, said]
        cases tableAt files here path with
        | none => rw [Option.getD_none, merge]
        | some es => rw [Option.getD_some, List.foldl_cons]
  rw [mergedWith, mergedWith, hmerged]

end

/-- The documents of the second tree say what those of the first say, but for a section `s` with the
value `v` that the document at `path` has in addition, and perhaps some before it. -/
structure AddsSection (s : String) (v : Value) (files files' : FileTree) (here home : List String)
    (asked : Option String) (below : List String) (path : String) (above : List String) : Prop where
  isSection : s ∈ sectionNames
  paths : documentPaths here home asked = below ++ path :: above
  before : ∀ p ∈ below, SaysSame files files' here p ∨ SaysMore s v files files' here p
  more : SaysMore s v files files' here path
  after : ∀ p ∈ above, SaysSame files files' here p

/-- The sources after some documents: further documents, and the environment. -/
def sourcesAfter (files : FileTree) (here above : List String) (env : Environment) : List Entries :=
  above.map (said files here) ++ [overrides env]

namespace AddsSection

variable {s : String} {v : Value} {files files' : FileTree} {here home : List String}
  {asked : Option String} {below : List String} {path : String} {above : List String}

/-- Each document says the same, or has the section in addition. -/
theorem cases (h : AddsSection s v files files' here home asked below path above) :
    ∀ p ∈ documentPaths here home asked,
      SaysSame files files' here p ∨ SaysMore s v files files' here p := by
  rw [h.paths]
  intro p hp
  rcases List.mem_append.1 hp with hp | hp
  · exact h.before p hp
  · rcases List.mem_cons.1 hp with rfl | hp
    · exact .inr h.more
    · exact .inl (h.after p hp)

/-- Nothing in the documents of the one tree ends the loading if nothing in those of the other. -/
theorem loadable_iff (h : AddsSection s v files files' here home asked below path above) :
    Loadable files' here home asked ↔ Loadable files here home asked := by
  rw [loadable_iff_said, loadable_iff_said]
  refine forall₂_congr fun p hp => ?_
  rcases h.cases p hp with hsame | hmore
  · rw [hsame.used_iff]
    exact and_congr_right fun hused => by rw [hsame.said_eq hused]
  · rw [hmore.all_isText]
    obtain ⟨front, back, told, told', hd, -, hd'⟩ := hmore
    exact and_congr_left fun _ => iff_of_true ⟨_, hd'⟩ ⟨_, hd⟩

/-- What the section gives in the first tree. -/
theorem given?_first (h : AddsSection s v files files' here home asked below path above)
    (env : Environment) :
    (mergedWith (tables files here home asked) env).given? s =
      givenBy s (givenBy s .nothing (below.map (said files here)))
        (sourcesAfter files here above env) := by
  rw [tables, mergedWith_said,
    given?_mergedWith h.isSection (List.forall_mem_map.2 fun _ _ => clean_said), h.paths,
    List.map_append, List.map_cons, List.append_assoc, List.cons_append, ← sourcesAfter,
    givenBy_append, givenBy, List.foldl_cons, Entries.addTo_of_absent h.more.named?.1, ← givenBy]

section
variable (h : AddsSection s v files files' here home asked below path above)
  (hused : ∀ p ∈ documentPaths here home asked, ∃ added, documentAt files here p = .ok added)
include h hused

/-- What a document says under a name: the same, or it has the section in addition. -/
theorem named?_said {p : String} (hp : p ∈ documentPaths here home asked) :
    (∀ name, s ≠ name →
      (said files' here p).named? name = (said files here p).named? name) ∧
    ((said files' here p).named? s = (said files here p).named? s ∨
      (said files here p).named? s = none ∧ (said files' here p).named? s = some v) := by
  rcases h.cases p hp with hsame | hmore
  · rw [hsame.said_eq (hused p hp)]
    exact ⟨fun _ _ => rfl, .inl rfl⟩
  · obtain ⟨habsent, hnamed⟩ := hmore.named?
    refine ⟨fun name hname => ?_, .inr ⟨habsent, ?_⟩⟩
    · rw [hnamed, if_neg hname]
    · rw [hnamed, if_pos rfl]

/-- The other sections give the same. -/
theorem given?_other (env : Environment) {name : String} (hname : name ∈ sectionNames)
    (hne : s ≠ name) :
    (mergedWith (tables files' here home asked) env).given? name =
      (mergedWith (tables files here home asked) env).given? name := by
  rw [tables, tables, mergedWith_said, mergedWith_said,
    given?_mergedWith hname (List.forall_mem_map.2 fun _ _ => clean_said),
    given?_mergedWith hname (List.forall_mem_map.2 fun _ _ => clean_said)]
  refine givenBy_congr (List.rel_append ?_ (.cons rfl .nil)) _
  rw [List.forall₂_map_left_iff, List.forall₂_map_right_iff, List.forall₂_same]
  exact fun p hp => (h.named?_said hused hp).1 name hne

/-- What the section gives in the second tree. -/
theorem given?_second (env : Environment) :
    (mergedWith (tables files' here home asked) env).given? s =
      givenBy s ((said files' here path).addTo s
        (givenBy s .nothing (below.map (said files' here))))
        (sourcesAfter files here above env) := by
  have habove : above.map (said files' here) = above.map (said files here) := by
    refine List.map_congr_left fun p hp => (h.after p hp).said_eq (hused p ?_)
    rw [h.paths]
    exact List.mem_append_right _ (List.mem_cons_of_mem _ hp)
  rw [tables, mergedWith_said,
    given?_mergedWith h.isSection (List.forall_mem_map.2 fun _ _ => clean_said), h.paths,
    List.map_append, List.map_cons, habove, List.append_assoc, List.cons_append, ← sourcesAfter,
    givenBy_append, givenBy, List.foldl_cons, ← givenBy]

/-- The settings are the same if the section gives the same. -/
theorem read_eq {env : Environment} {es : Entries}
    (hs : es.given? s = (mergedWith (tables files' here home asked) env).given? s)
    (hother : ∀ name ∈ sectionNames, s ≠ name →
      es.given? name = (mergedWith (tables files here home asked) env).given? name) :
    Settings.read (mergedWith (tables files' here home asked) env) = Settings.read es := by
  refine read_congr fun name hname => ?_
  by_cases hne : s = name
  · rw [← hne, hs]
  · rw [hother name hname hne, h.given?_other hused env hname hne]

end

/-- **A table without entries** changes what is loaded only where the section would be no table
otherwise. -/
theorem given?_of_empty
    (h : AddsSection s (.table []) files files' here home asked below path above)
    (hused : ∀ p ∈ documentPaths here home asked, ∃ added, documentAt files here p = .ok added)
    (env : Environment) :
    (mergedWith (tables files' here home asked) env).given? s =
        (mergedWith (tables files here home asked) env).given? s ∨
      (mergedWith (tables files here home asked) env).given? s = none := by
  have hclean : ∀ {files : FileTree} {paths : List String},
      ∀ es ∈ paths.map (said files here), es.Clean :=
    List.forall_mem_map.2 fun _ _ => clean_said
  rw [tables, tables, mergedWith_said, mergedWith_said, given?_mergedWith h.isSection hclean,
    given?_mergedWith h.isSection hclean]
  refine (givenBy_of_added (List.rel_append ?_ (.cons (.inl rfl) .nil)) (.inl rfl)).imp_right
    And.left
  rw [List.forall₂_map_left_iff, List.forall₂_map_right_iff, List.forall₂_same]
  exact fun p hp => (h.named?_said hused hp).2

/-- Nothing in the place of a table leaves of the section what the sources after it say. -/
theorem given?_of_null (h : AddsSection s .null files files' here home asked below path above)
    (hused : ∀ p ∈ documentPaths here home asked, ∃ added, documentAt files here p = .ok added)
    (env : Environment) :
    (mergedWith (tables files' here home asked) env).given? s =
      givenBy s none (sourcesAfter files here above env) := by
  have hnull : (said files' here path).named? s = some .null := by
    rw [h.more.named?.2, if_pos rfl]
  rw [h.given?_second hused env, Entries.addTo_of_null hnull]

/-- If no document before says anything about the section, a table without entries changes
nothing. -/
theorem given?_of_empty_first
    (h : AddsSection s (.table []) files files' here home asked below path above)
    (hused : ∀ p ∈ documentPaths here home asked, ∃ added, documentAt files here p = .ok added)
    (hbelow : ∀ p ∈ below, (said files here p).named? s = none) (env : Environment) :
    (mergedWith (tables files' here home asked) env).given? s =
      (mergedWith (tables files here home asked) env).given? s := by
  have hfirst : ∀ es ∈ below.map (said files here), es.named? s = none :=
    List.forall_mem_map.2 hbelow
  have hsecond : ∀ es ∈ below.map (said files' here),
      es.named? s = none ∨ es.named? s = some (.table []) := by
    refine List.forall_mem_map.2 fun p hp => ?_
    have hmem : p ∈ documentPaths here home asked := by
      rw [h.paths]
      exact List.mem_append_left _ hp
    rcases (h.named?_said hused hmem).2 with hsame | ⟨-, hempty⟩
    · exact .inl (hsame.trans (hbelow p hp))
    · exact .inr hempty
  have hempty : (said files' here path).named? s = some (.table []) := by
    rw [h.more.named?.2, if_pos rfl]
  rw [h.given?_second hused env, h.given?_first env, givenBy_of_empty hsecond,
    givenBy_of_absent hfirst, Entries.addTo_of_empty hempty]
  rfl

end AddsSection

/-- All sources, but that some documents at first do not say anything about a section. -/
def forgetting (s : String) (files : FileTree) (here below rest : List String)
    (env : Environment) : Entries :=
  mergedWith (below.map (fun p => (said files here p).without s) ++ rest.map (said files here)) env

/-- The other sections give the same if one is forgotten; what this one gives is what the sources
after the last one that forgets say. -/
theorem given?_forgetting {s : String} {files : FileTree} {here below above : List String}
    {path : String} {env : Environment} {name : String} (hname : name ∈ sectionNames)
    (hpath : (said files here path).named? s = none) :
    (forgetting s files here below (path :: above) env).given? name =
      if s = name then givenBy s .nothing (sourcesAfter files here above env)
      else (mergedWith ((below ++ path :: above).map (said files here)) env).given? name := by
  have hclean : ∀ es ∈ below.map (fun p => (said files here p).without s) ++
      (path :: above).map (said files here), es.Clean := by
    rw [List.forall_mem_append, List.forall_mem_map, List.forall_mem_map]
    exact ⟨fun _ _ => clean_said.without s, fun _ _ => clean_said⟩
  rw [forgetting, given?_mergedWith hname hclean]
  split
  · next heq =>
    subst heq
    have habsent : ∀ es ∈ below.map (fun p => (said files here p).without s),
        es.named? s = none := by
      refine List.forall_mem_map.2 fun p _ => ?_
      rw [Entries.named?_without, if_pos rfl]
    rw [List.append_assoc, givenBy_append, givenBy_of_absent habsent, List.map_cons,
      List.cons_append, ← sourcesAfter, givenBy, List.foldl_cons, Entries.addTo_of_absent hpath,
      ← givenBy]
  · next hne =>
    rw [given?_mergedWith hname (List.forall_mem_map.2 fun _ _ => clean_said), List.map_append]
    refine givenBy_congr (List.rel_append (List.rel_append ?_ ?_) ?_) _
    · rw [List.forall₂_map_left_iff, List.forall₂_map_right_iff, List.forall₂_same]
      intro p _
      rw [Entries.named?_without, if_neg hne]
    · exact List.forall₂_same.2 fun _ _ => rfl
    · exact List.forall₂_same.2 fun _ _ => rfl

/-- **What an empty section does**, put into a document that had none. A table without entries
changes neither whether the settings are loaded nor which they are, unless the section would be no
table otherwise, so that no settings are loaded. With nothing in the place of a table the settings
are loaded exactly if a source after it has the section, and they are then the ones that there would
be if the documents before it did not. So neither of the two does any harm if these do not have the
section, and, with nothing in it, a source after it has. -/
theorem load_empty_section {s : String} {v : Value} {files files' : FileTree}
    {here home : List String} {asked : Option String} {below : List String} {path : String}
    {above : List String} (env : Environment)
    (h : AddsSection s v files files' here home asked below path above) :
    (v = .table [] → ∀ settings,
      ((load files here home asked env).2 = .ok settings →
        (load files' here home asked env).2 = .ok settings) ∧
      ((load files' here home asked env).2 = .ok settings →
        (load files here home asked env).2 = .ok settings ∨
          (mergedWith (tables files here home asked) env).given? s = none)) ∧
    (v = .null → ∀ settings, (load files' here home asked env).2 = .ok settings ↔
      (∃ es ∈ sourcesAfter files here above env, es.named? s ≠ none) ∧
        Loadable files here home asked ∧
        Settings.read (forgetting s files here below (path :: above) env) = .ok settings) ∧
    ((∀ p ∈ below, (said files here p).named? s = none) →
      v = .table [] ∨ v = .null ∧ (∃ es ∈ sourcesAfter files here above env, es.named? s ≠ none) →
      ∀ settings, (load files' here home asked env).2 = .ok settings ↔
        (load files here home asked env).2 = .ok settings) := by
  simp only [load_eq_ok_iff_merged, h.loadable_iff]
  refine ⟨?_, ?_, ?_⟩
  · rintro rfl settings
    refine ⟨fun ⟨hloadable, hread⟩ => ⟨hloadable, ?_⟩, fun ⟨hloadable, hread⟩ => ?_⟩
    · rcases h.given?_of_empty hloadable.used env with hsame | hnone
      · rwa [h.read_eq hloadable.used hsame.symm fun _ _ _ => rfl]
      · exact absurd hread (read_ne_ok h.isSection hnone settings)
    · refine (h.given?_of_empty hloadable.used env).imp_left fun hsame => ⟨hloadable, ?_⟩
      rwa [h.read_eq hloadable.used hsame.symm fun _ _ _ => rfl] at hread
  · rintro rfl settings
    have hiff : ∀ (hloadable : Loadable files here home asked),
        (∃ es ∈ sourcesAfter files here above env, es.named? s ≠ none) →
        Settings.read (mergedWith (tables files' here home asked) env) =
          Settings.read (forgetting s files here below (path :: above) env) := by
      intro hloadable hpresent
      refine h.read_eq hloadable.used ?_ fun name hname hne => ?_
      · rw [given?_forgetting h.isSection h.more.named?.1, if_pos rfl,
          h.given?_of_null hloadable.used, givenBy_of_present hpresent]
      · rw [given?_forgetting hname h.more.named?.1, if_neg hne, tables, mergedWith_said, h.paths]
    constructor
    · rintro ⟨hloadable, hread⟩
      have hpresent : ∃ es ∈ sourcesAfter files here above env, es.named? s ≠ none := by
        by_contra hnone
        push Not at hnone
        have hgiven := h.given?_of_null hloadable.used env
        rw [givenBy_of_absent hnone] at hgiven
        exact read_ne_ok h.isSection hgiven settings hread
      exact ⟨hpresent, hloadable, hiff hloadable hpresent ▸ hread⟩
    · rintro ⟨hpresent, hloadable, hread⟩
      exact ⟨hloadable, (hiff hloadable hpresent).trans hread⟩
  · intro hbelow hv settings
    refine and_congr_right fun hloadable => ?_
    suffices hsame : (mergedWith (tables files' here home asked) env).given? s =
        (mergedWith (tables files here home asked) env).given? s by
      rw [h.read_eq hloadable.used hsame.symm fun _ _ _ => rfl]
    rcases hv with rfl | ⟨rfl, hpresent⟩
    · exact h.given?_of_empty_first hloadable.used hbelow env
    · rw [h.given?_of_null hloadable.used env, givenBy_of_present hpresent, h.given?_first env,
        givenBy_of_absent (List.forall_mem_map.2 hbelow)]

/-- What a home folder says about a watch. -/
def homeText : String := "\"watch\": \x7b\"ignored\": [\"gen/\"]\x7d\n"

/-- The home folder, and a project with some other document. -/
def projectAtHome (document : String) : FileTree :=
  ⟨[("h", .folder [(".buildsweep", .folder [("config.yaml", .file (Text.encode homeText))])]),
    ("p", .folder [(".buildsweep.yaml", .file (Text.encode document))])]⟩

/-- The entries of the document in the home folder. -/
def homeEntries : Entries :=
  [(.text "watch", .table [(.text "ignored", .list [.text "gen/"])])]

/-- The document in the home folder is read. -/
theorem documentAt_home (document : String) :
    documentAt (projectAtHome document) ["p"] "/h/.buildsweep/config.yaml" =
      .ok (homeEntries, [.loaded "/h/.buildsweep/config.yaml"]) := by
  have hread : (projectAtHome document).read ["p"] "/h/.buildsweep/config.yaml" =
      .ok (Text.encode homeText) :=
    FileTree.read_of_get? ["p"] ["h", ".buildsweep", "config.yaml"] rfl (by decide +kernel)
      (by decide) (by decide +kernel)
  exact documentAt_of_text hread (Yaml.read_of_same (v := .table homeEntries) (by decide +kernel))

/-- The document of the project is read as its text is. -/
theorem read_project (document : String) :
    (projectAtHome document).read ["p"] "/p/.buildsweep.yaml" = .ok (Text.encode document) :=
  FileTree.read_of_get? ["p"] ["p", ".buildsweep.yaml"] rfl (by decide +kernel) (by decide)
    (by decide +kernel)

/-- The settings are read from the two documents. -/
theorem load_projectAtHome {document : String} {es : Entries} {told : List Notice}
    (h : documentAt (projectAtHome document) ["p"] "/p/.buildsweep.yaml" = .ok (es, told))
    (env : Environment) :
    (load (projectAtHome document) ["p"] ["h"] none env).2 =
      settingsOf (mergedWith [homeEntries, es] env) := by
  have hpaths : documentPaths ["p"] ["h"] none =
      ["/h/.buildsweep/config.yaml", "/p/.buildsweep.yaml"] := by decide +kernel
  have hhome := documentAt_home document
  rw [load_eq_settingsOf (by simp [hpaths, hhome, h]), tables, mergedWith_said, hpaths,
    List.map_cons, List.map_singleton, said, said, ← documentAt_eq_ok hhome, ← documentAt_eq_ok h]

/-- The patterns come from the home folder. -/
def homeSettings : Settings := { watch := { ignored := ["gen/"] } }

/-- An empty document. -/
theorem documentAt_blank : documentAt (projectAtHome "") ["p"] "/p/.buildsweep.yaml" =
    .ok ([], [.loaded "/p/.buildsweep.yaml"]) :=
  documentAt_of_text (read_project _) (Yaml.read_of_same (v := .null) (by decide +kernel))

/-- A document with a section that has no entries. -/
theorem documentAt_table :
    documentAt (projectAtHome "\"watch\": \x7b\x7d\n") ["p"] "/p/.buildsweep.yaml" =
      .ok ([(.text "watch", .table [])], [.loaded "/p/.buildsweep.yaml"]) :=
  documentAt_of_text (read_project _) <|
    Yaml.read_of_same (v := .table [(.text "watch", .table [])]) (by decide +kernel)

/-- A document with a section that has nothing under it. -/
theorem documentAt_null :
    documentAt (projectAtHome "\"watch\":\n") ["p"] "/p/.buildsweep.yaml" =
      .ok ([(.text "watch", .null)], [.loaded "/p/.buildsweep.yaml"]) :=
  documentAt_of_text (read_project _) <|
    Yaml.read_of_same (v := .table [(.text "watch", .null)]) (by decide +kernel)

/-- The patterns of the home folder are there with a table without entries, too. -/
theorem load_empty_section_table :
    AddsSection "watch" (.table []) (projectAtHome "") (projectAtHome "\"watch\": \x7b\x7d\n") ["p"]
      ["h"] none ["/h/.buildsweep/config.yaml"] "/p/.buildsweep.yaml" [] ∧
    (load (projectAtHome "\"watch\": \x7b\x7d\n") ["p"] ["h"] none []).2 = .ok homeSettings := by
  have hadds : AddsSection "watch" (.table []) (projectAtHome "")
      (projectAtHome "\"watch\": \x7b\x7d\n") ["p"] ["h"] none ["/h/.buildsweep/config.yaml"]
      "/p/.buildsweep.yaml" [] := by
    refine ⟨by decide, by decide +kernel, List.forall_mem_singleton.2 (.inl ?_),
      ⟨[], [], _, _, documentAt_blank, rfl, documentAt_table⟩, nofun⟩
    rw [SaysSame, documentAt_home, documentAt_home]
  have hload : (load (projectAtHome "") ["p"] ["h"] none []).2 = .ok homeSettings := by
    rw [load_projectAtHome documentAt_blank]
    decide +kernel
  exact ⟨hadds, ((load_empty_section [] hadds).1 rfl homeSettings).1 hload⟩

/-- **A section with nothing under it** ends the loading if no source after it has the section. If
one has, what the documents before say about it is lost. -/
theorem load_drops_section :
    (load (projectAtHome "") ["p"] ["h"] none []).2 = .ok homeSettings ∧
    (load (projectAtHome "\"watch\":\n") ["p"] ["h"] none []).2 =
      .error (.invalid [⟨[.field "watch"], .notTable⟩]) ∧
    (load (projectAtHome "") ["p"] ["h"] none watchEnvironment).2 =
      .ok { watch := { ignored := ["gen/"], overlapPolicy := .coalesce } } ∧
    (load (projectAtHome "\"watch\":\n") ["p"] ["h"] none watchEnvironment).2 =
      .ok { watch := { overlapPolicy := .coalesce } } := by
  simp only [load_projectAtHome documentAt_blank, load_projectAtHome documentAt_null]
  decide +kernel

end ScriptScrub.Config
