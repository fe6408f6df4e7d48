import Mathlib.Data.List.Find
import Mathlib.Data.List.Forall2
import ScriptScrub.Proofs.Sanitizer.Fresh
import ScriptScrub.Proofs.Sanitizer.Reference

/-!
# What is left of a tree

A tree is what is left of another (`isLeftOf`) if it has the nodes of the other that are not
removed, each with its kind, its field and, where the text counts, its text, and something that is
never matched in the place of every node that is replaced. Then every place of the remainder that
could be matched has an origin in the first tree (`Origin`, `exists_kept`), one that asked for no
edit, and children and fields of the two go together (`Kept.children`, `Kept.rel_child?`).
-/

namespace ScriptScrub.Sanitizer

open Config (SanitizerSettings)

/-! ## Kinds -/

/-- The kinds of nodes that can be matched. -/
def reactiveKinds : List String :=
  commentKinds ++ ["expression_statement", "call_expression"] ++ accessKinds

/-- The kinds of nodes that are looked at for their text wherever they stand. -/
def wordKinds : List String :=
  ["identifier", "shorthand_property_identifier_pattern", "property_identifier", "string"]

/-- The kinds of nodes that are looked at for the text of their names. -/
def nameHolderKinds : List String :=
  Scope.selfNamedKinds ++ Scope.namedDeclarationKinds ++ ["import_specifier"]

/-- The text of the node at this place counts. -/
def isWord (p : Place) : Bool :=
  wordKinds.contains p.kind ||
    match p.parent? with
    | none => false
    | some (parent, _) =>
      (nameHolderKinds.contains parent.kind &&
        [some "name", some "alias"].contains p.node.field) ||
      (parent.kind == "for_in_statement" && p.node.field == some "kind")

/-- Nothing in the node can be matched or is looked at for its text. -/
def isIdle (n : Node) : Bool :=
  n.preorder.all fun m => !reactiveKinds.contains m.kind && !wordKinds.contains m.kind

/-! ## Remainders -/

section
variable (source output : Bytes) (settings : SanitizerSettings)

/-- The node at this place is removed without a replacement. -/
def isGone (p : Place) : Bool :=
  match fresh source settings p with
  | some e => e.isRemoval
  | none => false

/-- The children that are not removed. -/
def survivors (p : Place) : List Place := p.children.filter fun c => !isGone source settings c

/-- No child that is removed fills a field, or the place is a list of statements. -/
def losesNoField (p : Place) : Bool :=
  p.children.all fun c =>
    !isGone source settings c || c.node.field.isNone || statementListKinds.contains p.kind

mutual

/-- The node of the second tree is what is left of the node at this place: the node itself without
what is removed in it, or something idle if the place asks for an edit that puts something there. A
word and a list of parameters have to stay. -/
def isLeftOf (p : Place) : Node → Bool
  | n@⟨_, _, _, _, _, _, _, children⟩ =>
    n.named == p.node.named && n.field == p.node.field &&
    match fresh source settings p with
    | some e => !e.isRemoval && !isWord p && n.field != some "parameters" && isIdle n
    | none =>
      n.kind == p.kind && (!isWord p || n.text output == p.node.text source) &&
        losesNoField source settings p && areLeftOf (survivors source settings p) children

/-- The nodes of the second tree are what is left of these places, one by one. -/
def areLeftOf : List Place → List Node → Bool
  | [], [] => true
  | p :: ps, n :: ns => isLeftOf p n && areLeftOf ps ns
  | _, _ => false

end

/-- The node of the second tree is the node at this place, without what is removed in it. -/
structure IsKept (p : Place) (n : Node) : Prop where
  kind : n.kind = p.kind
  text : isWord p = true → n.text output = p.node.text source
  fields : p.kind ∉ statementListKinds → ∀ c ∈ p.children, isGone source settings c = true →
    c.node.field = none
  children : List.Forall₂ (fun c m => isLeftOf source output settings c m = true)
    (survivors source settings p) n.children

variable {source output settings}

/-- Nodes that are left of some places are left one by one. -/
theorem areLeftOf_iff {ps : List Place} {ns : List Node} :
    areLeftOf source output settings ps ns = true ↔
      List.Forall₂ (fun p n => isLeftOf source output settings p n = true) ps ns := by
  induction ps generalizing ns with
  | nil =>
      cases ns with
      | nil => exact iff_of_true rfl .nil
      | cons n ns => exact iff_of_false nofun nofun
  | cons p ps ih =>
      cases ns with
      | nil => exact iff_of_false nofun nofun
      | cons n ns => rw [areLeftOf, Bool.and_eq_true, ih, List.forall₂_cons]

/-- **What being left says**: the node has the name and the field that the other had, and it is a
replacement where the other asked for an edit. -/
theorem isLeftOf_iff {p : Place} {n : Node} :
    isLeftOf source output settings p n = true ↔
      n.named = p.node.named ∧ n.field = p.node.field ∧
        match fresh source settings p with
        | some e => e.isRemoval = false ∧ isWord p = false ∧ n.field ≠ some "parameters" ∧
            isIdle n = true
        | none => IsKept source output settings p n := by
  obtain ⟨kind, start, stop, named, missing, broken, field, children⟩ := n
  rw [isLeftOf]
  simp only [Bool.and_eq_true, beq_iff_eq, and_assoc]
  refine and_congr_right' (and_congr_right' ?_)
  cases fresh source settings p with
  | some e => simp [and_assoc]
  | none =>
      have hfields : losesNoField source settings p = true ↔ (p.kind ∉ statementListKinds →
          ∀ c ∈ p.children, isGone source settings c = true → c.node.field = none) := by
        simp only [losesNoField, List.all_eq_true, Bool.or_eq_true, Bool.not_eq_true',
          Option.isNone_iff_eq_none, List.contains_iff_mem]
        grind
      simp only [Bool.and_eq_true, beq_iff_eq, Bool.or_eq_true, Bool.not_eq_true',
        areLeftOf_iff, hfields]
      constructor
      · rintro ⟨⟨⟨hkind, htext⟩, hlost⟩, hchildren⟩
        exact ⟨hkind, fun hword => htext.resolve_left (by simp [hword]), hlost, hchildren⟩
      · rintro ⟨hkind, htext, hlost, hchildren⟩
        refine ⟨⟨⟨hkind, ?_⟩, hlost⟩, hchildren⟩
        cases hword : isWord p with
        | true => exact .inr (htext hword)
        | false => exact .inl rfl

end

/-! ## Lists that go together -/

section
variable {α β : Type} {T : α → β → Prop} {as : List α} {bs : List β}

/-- What is first of its sort in lists that go together goes together. -/
theorem rel_find? {f : α → Bool} {g : β → Bool} (hfg : ∀ a b, T a b → f a = g b)
    (h : List.Forall₂ T as bs) : Option.Rel T (as.find? f) (bs.find? g) := by
  induction h with
  | nil => exact .none
  | cons hab _ ih =>
      rw [List.find?_cons, List.find?_cons, hfg _ _ hab]
      split
      · exact .some hab
      · exact ih

/-- What is in the first of two lists that go together has something to go with. -/
theorem exists_of_mem_left (h : List.Forall₂ T as bs) {a : α} (ha : a ∈ as) : ∃ b ∈ bs, T a b := by
  induction h with
  | nil => cases ha
  | cons hab _ ih =>
      rcases List.mem_cons.1 ha with rfl | ha
      · exact ⟨_, List.mem_cons_self, hab⟩
      · obtain ⟨b, hb, hab⟩ := ih ha
        exact ⟨b, List.mem_cons_of_mem _ hb, hab⟩

/-- What is in the second of two lists that go together has something to go with. -/
theorem exists_of_mem_right (h : List.Forall₂ T as bs) {b : β} (hb : b ∈ bs) :
    ∃ a ∈ as, T a b := by
  obtain ⟨a, ha, hab⟩ := exists_of_mem_left h.flip hb
  exact ⟨a, ha, hab⟩

/-- What goes together with a member of a list without repetitions. -/
theorem snd_unique_of_mem_zip (has : as.Nodup) {a : α} {b b' : β} (h : (a, b) ∈ as.zip bs)
    (h' : (a, b') ∈ as.zip bs) : b = b' := by
  induction as generalizing bs with
  | nil => simp at h
  | cons c as ih =>
      cases bs with
      | nil => simp at h
      | cons d bs =>
          rw [List.nodup_cons] at has
          rw [List.zip_cons_cons, List.mem_cons, Prod.mk.injEq] at h h'
          rcases h with ⟨rfl, rfl⟩ | h
          · rcases h' with ⟨-, rfl⟩ | h'
            · rfl
            · exact absurd (List.of_mem_zip h').1 has.1
          · rcases h' with ⟨rfl, -⟩ | h'
            · exact absurd (List.of_mem_zip h).1 has.1
            · exact ih has.2 h h'

end

/-! ## Origins -/

/-- The place of the second tree is what is left of the place of the first: they are the roots, or
they stand at one position among the survivors of a place that asks for no edit and the children of
what is left of it. -/
inductive Origin (source : Bytes) (settings : SanitizerSettings) (root rest : Node) :
    Place → Place → Prop where
  | root : Origin source settings root rest ⟨root, []⟩ ⟨rest, []⟩
  | child {p q c d : Place} (h : Origin source settings root rest p q)
      (hp : fresh source settings p = none)
      (hcd : (c, d) ∈ (survivors source settings p).zip q.children) :
      Origin source settings root rest c d

/-- The place of the second tree is what is left of a place that asks for no edit. -/
structure Kept (source : Bytes) (settings : SanitizerSettings) (root rest : Node) (p q : Place) :
    Prop where
  origin : Origin source settings root rest p q
  unasked : fresh source settings p = none

section
variable {source output : Bytes} {settings : SanitizerSettings} {root rest : Node} {p q c d : Place}

/-- A child that is not removed is a survivor. -/
theorem mem_survivors_iff : c ∈ survivors source settings p ↔
    c ∈ p.children ∧ isGone source settings c = false := by
  rw [survivors, List.mem_filter, Bool.not_eq_true']

/-- Survivors and what is left of them are children. -/
theorem mem_children_of_mem_zip (h : (c, d) ∈ (survivors source settings p).zip q.children) :
    c ∈ p.children ∧ d ∈ q.children :=
  ⟨(mem_survivors_iff.1 (List.of_mem_zip h).1).1, (List.of_mem_zip h).2⟩

/-- What is left and its origin are places of the trees. -/
theorem Origin.mem_all (h : Origin source settings root rest p q) :
    p ∈ Place.all root ∧ q ∈ Place.all rest := by
  induction h with
  | root => exact ⟨Place.mem_all_iff.2 (.inl rfl), Place.mem_all_iff.2 (.inl rfl)⟩
  | child _ _ hcd ih =>
      obtain ⟨hc, hd⟩ := mem_children_of_mem_zip hcd
      exact ⟨Place.Below.mem_all (.child hc) ih.1, Place.Below.mem_all (.child hd) ih.2⟩

/-- One thing is left of a place. -/
theorem Origin.unique {d' : Place} (h : Origin source settings root rest c d)
    (h' : Origin source settings root rest c d') : d = d' := by
  have notRoot : ∀ {p : Place}, (⟨root, []⟩ : Place) ∉ p.children := by
    intro p hmem
    obtain ⟨i, n, -, heq⟩ := Place.mem_children_iff.1 hmem
    cases heq
  induction h generalizing d' with
  | root =>
      cases h' with
      | root => rfl
      | child _ _ hcd' => exact absurd (mem_children_of_mem_zip hcd').1 notRoot
  | child _ _ hcd ih =>
      cases h' with
      | root => exact absurd (mem_children_of_mem_zip hcd).1 notRoot
      | child hpq' _ hcd' =>
          obtain rfl := Place.eq_of_mem_children (mem_children_of_mem_zip hcd).1
            (mem_children_of_mem_zip hcd').1
          obtain rfl := ih hpq'
          exact snd_unique_of_mem_zip ((Place.nodup_children _).filter _) hcd hcd'

/-- What can be matched is of one of these kinds. -/
theorem Match.kind_mem {ok : Place → String → Prop} {e : RuleEdit}
    (h : Match source settings ok p e) : p.kind ∈ reactiveKinds := by
  rw [reactiveKinds, List.mem_append, List.mem_append]
  cases h with
  | comment hn => exact .inl (.inl (List.contains_iff_mem.1 hn))
  | statement hp => exact .inl (.inr (List.mem_cons.2 (.inl hp)))
  | call hc =>
      rw [hc.isCall]
      exact .inl (.inr (by decide))
  | bind hc =>
      rw [hc.isCall]
      exact .inl (.inr (by decide))
  | detached hr => exact .inr hr.kind

/-- So is what is matched afresh. -/
theorem kind_of_fresh {e : RuleEdit} (h : fresh source settings p = some e) :
    p.kind ∈ reactiveKinds :=
  (match?_eq_some (h ▸ answers_fresh source settings p)).kind_mem

/-- An idle node could not be matched. -/
theorem not_mem_of_isIdle {n : Node} (h : isIdle n = true) :
    n.kind ∉ reactiveKinds ∧ n.kind ∉ wordKinds := by
  rw [isIdle, Node.preorder_eq, List.all_cons, Bool.and_eq_true] at h
  simpa using h.1

/-- What stands in an idle node is idle. -/
theorem isIdle_of_mem_children (h : isIdle q.node = true) (hd : d ∈ q.children) :
    isIdle d.node = true := by
  have hmem : d.node ∈ q.node.children := by
    rw [← Place.map_node_children]
    exact List.mem_map_of_mem hd
  rw [isIdle, List.all_eq_true] at h ⊢
  intro m hm
  refine h m ?_
  rw [Node.preorder_eq]
  exact List.mem_cons_of_mem _ (List.mem_flatMap.2 ⟨_, hmem, hm⟩)

/-- A place whose kind is never matched asks for no edit. -/
theorem Origin.kept_of_kind (h : Origin source settings root rest p q)
    (hp : p.kind ∉ reactiveKinds) : Kept source settings root rest p q :=
  ⟨h, Option.eq_none_iff_forall_ne_some.2 fun _ he => hp (kind_of_fresh he)⟩

variable (hleft : isLeftOf source output settings ⟨root, []⟩ rest = true)
include hleft

/-- What is left of a place by its origin is left of it. -/
theorem Origin.left (h : Origin source settings root rest p q) :
    isLeftOf source output settings p q.node = true := by
  induction h with
  | root => exact hleft
  | child _ hp hcd ih =>
      obtain ⟨-, -, hkept⟩ := isLeftOf_iff.1 ih
      rw [hp] at hkept
      have hchildren := hkept.children
      rw [← Place.map_node_children, List.forall₂_map_right_iff] at hchildren
      exact List.forall₂_zip hchildren hcd

/-- What is left has the name and the field of its origin. -/
theorem Origin.labels (h : Origin source settings root rest p q) :
    q.node.named = p.node.named ∧ q.node.field = p.node.field := by
  obtain ⟨hnamed, hfield, -⟩ := isLeftOf_iff.1 (h.left hleft)
  exact ⟨hnamed, hfield⟩

/-- What is left of a place that asks for no edit is the node itself. -/
theorem Kept.isKept (h : Kept source settings root rest p q) :
    IsKept source output settings p q.node := by
  obtain ⟨-, -, hkept⟩ := isLeftOf_iff.1 (h.origin.left hleft)
  rwa [h.unasked] at hkept

/-- What is left of a place that asks for an edit is idle, and neither did the text of the place
count nor was it a list of parameters. -/
theorem Origin.idle {e : RuleEdit} (h : Origin source settings root rest p q)
    (he : fresh source settings p = some e) :
    isWord p = false ∧ q.node.field ≠ some "parameters" ∧ isIdle q.node = true := by
  obtain ⟨-, -, hidle⟩ := isLeftOf_iff.1 (h.left hleft)
  rw [he] at hidle
  exact hidle.2

/-- **The children of what is left** are what is left of the survivors. -/
theorem Kept.children (h : Kept source settings root rest p q) :
    List.Forall₂ (Origin source settings root rest) (survivors source settings p) q.children := by
  have hlength := (h.isKept hleft).children.length_eq
  rw [← Place.map_node_children, List.length_map] at hlength
  exact List.forall₂_iff_zip.2 ⟨hlength, fun hcd => .child h.origin h.unasked hcd⟩

/-- **The fields of what is left** hold what is left of the fields. -/
theorem Kept.rel_child? (h : Kept source settings root rest p q)
    (hp : p.kind ∉ statementListKinds) (field : String) :
    Option.Rel (Origin source settings root rest) (p.child? field) (q.child? field) := by
  have hfields := (h.isKept hleft).fields hp
  have hsurvivors : p.child? field =
      (survivors source settings p).find? fun c => c.node.field == some field := by
    rw [survivors, List.find?_filter, Place.child?]
    refine List.find?_congr fun c hc => ?_
    have hsurvives : c.node.field = some field → isGone source settings c = false := by
      intro hfield
      refine Bool.eq_false_iff.2 fun hgone => ?_
      rw [hfields c hc hgone] at hfield
      cases hfield
    rw [Bool.eq_iff_iff]
    simpa using hsurvives
  rw [hsurvivors, Place.child?]
  refine rel_find? (fun c d hcd => ?_) (h.children hleft)
  rw [(hcd.labels hleft).2]

/-- What stands in a field has something left in the field. -/
theorem Kept.exists_child?_left (h : Kept source settings root rest p q)
    (hp : p.kind ∉ statementListKinds) {field : String} (hc : p.child? field = some c) :
    ∃ d, q.child? field = some d ∧ Origin source settings root rest c d := by
  have hrel := h.rel_child? hleft hp field
  generalize q.child? field = d? at hrel ⊢
  rw [hc] at hrel
  cases hrel with
  | some hcd => exact ⟨_, rfl, hcd⟩

/-- What is left in a field is left of what stands in the field. -/
theorem Kept.exists_child?_right (h : Kept source settings root rest p q)
    (hp : p.kind ∉ statementListKinds) {field : String} (hd : q.child? field = some d) :
    ∃ c, p.child? field = some c ∧ Origin source settings root rest c d := by
  have hrel := h.rel_child? hleft hp field
  generalize p.child? field = c? at hrel ⊢
  rw [hd] at hrel
  cases hrel with
  | some hcd => exact ⟨_, rfl, hcd⟩

/-- A place asks for no edit if what is left of it could be matched or is a word. -/
theorem Origin.kept_of_left (h : Origin source settings root rest p q)
    (hq : q.kind ∈ reactiveKinds ∨ q.kind ∈ wordKinds) : Kept source settings root rest p q := by
  refine ⟨h, Option.eq_none_iff_forall_ne_some.2 fun e he => ?_⟩
  obtain ⟨-, -, hidle⟩ := h.idle hleft he
  exact hq.elim (not_mem_of_isIdle hidle).1 (not_mem_of_isIdle hidle).2

/-- A place asks for no edit if its text counts. -/
theorem Origin.kept_of_isWord (h : Origin source settings root rest p q) (hp : isWord p = true) :
    Kept source settings root rest p q := by
  refine ⟨h, Option.eq_none_iff_forall_ne_some.2 fun e he => ?_⟩
  rw [(h.idle hleft he).1] at hp
  cases hp

/-- A list of parameters asks for no edit. -/
theorem Origin.kept_of_parameters (h : Origin source settings root rest p q)
    (hp : p.node.field = some "parameters") : Kept source settings root rest p q := by
  refine ⟨h, Option.eq_none_iff_forall_ne_some.2 fun e he => (h.idle hleft he).2.1 ?_⟩
  rw [(h.labels hleft).2, hp]

/-- **Every place of the remainder has an origin**, unless nothing in its node could be matched. -/
theorem exists_origin (hq : q ∈ Place.all rest) :
    (∃ p, Origin source settings root rest p q) ∨ isIdle q.node = true := by
  have step : ∀ {q d : Place}, d ∈ q.children →
      (∃ p, Origin source settings root rest p q) ∨ isIdle q.node = true →
      (∃ p, Origin source settings root rest p d) ∨ isIdle d.node = true := by
    rintro q d hd (⟨p, h⟩ | hidle)
    · cases he : fresh source settings p with
      | none =>
          obtain ⟨c, -, hcd⟩ := exists_of_mem_right (Kept.children hleft ⟨h, he⟩) hd
          exact .inl ⟨c, hcd⟩
      | some e => exact .inr (isIdle_of_mem_children (h.idle hleft he).2.2 hd)
    · exact .inr (isIdle_of_mem_children hidle hd)
  rcases Place.mem_all_iff.1 hq with rfl | hbelow
  · exact .inl ⟨_, .root⟩
  · clear hq
    induction hbelow with
    | child hd => exact step hd (.inl ⟨_, .root⟩)
    | deeper _ hd ih => exact step hd ih

/-- Every place of the remainder that could be matched is what is left of one that asks for no
edit. -/
theorem exists_kept (hq : q ∈ Place.all rest) (hkind : q.kind ∈ reactiveKinds) :
    ∃ p, Kept source settings root rest p q := by
  rcases exists_origin hleft hq with ⟨p, h⟩ | hidle
  · exact ⟨p, h.kept_of_left hleft (.inl hkind)⟩
  · exact absurd hkind (not_mem_of_isIdle hidle).1

end

end ScriptScrub.Sanitizer
