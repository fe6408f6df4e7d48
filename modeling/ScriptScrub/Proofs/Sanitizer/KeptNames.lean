import ScriptScrub.Proofs.Sanitizer.Bound
import ScriptScrub.Proofs.Sanitizer.Remainder

/-!
# What a remainder declares

A node that is left declares every name that it declared before (`Kept.declares`), if no node that
asked for an edit declared it by `var` for a function around it (`KeepsVariables`). So the name of a
diagnostic object that was bound is bound in the remainder (`Kept.isBound`): no edit takes a
declaration from a name that stays.
-/

namespace ScriptScrub.Sanitizer

open Config (SanitizerSettings)
open Scope (Binds Imports DeclaresIn Hoists Declares)

/-- Nothing in a node that asks for an edit declares a diagnostic object by `var` for a function
around the node. -/
def KeepsVariables (source : Bytes) (settings : SanitizerSettings) (root : Node) : Prop :=
  ∀ p ∈ Place.all root, fresh source settings p ≠ none →
    ∀ x ∈ settings.diagnosticObjects, x ∉ Scope.hoistedIn source p.node

instance (source : Bytes) (settings : SanitizerSettings) (root : Node) :
    Decidable (KeepsVariables source settings root) :=
  inferInstanceAs (Decidable (∀ p ∈ Place.all root, fresh source settings p ≠ none →
    ∀ x ∈ settings.diagnosticObjects, x ∉ Scope.hoistedIn source p.node))

section
variable {source output : Bytes} {settings : SanitizerSettings} {root rest : Node} {p q c d : Place}

/-- A pattern is of no kind that is ever matched. -/
theorem not_reactive_of_binds {n : Node} {x : String} (h : Binds source n x) :
    n.kind ∉ reactiveKinds := by
  cases h with
  | name hn => rcases hn with hn | hn <;> rw [hn] <;> decide
  | part hn => exact (by decide : ∀ k ∈ Scope.compoundPatternKinds, k ∉ reactiveKinds) _ hn
  | field hn =>
      intro hmem
      rw [(by decide : ∀ k ∈ reactiveKinds, Scope.boundField? k = none) _ hmem] at hn
      cases hn

/-- A declaration is of no kind that is ever matched. -/
theorem not_reactive_of_declaresIn {n : Node} {x : String} (h : DeclaresIn source n x) :
    n.kind ∉ reactiveKinds := by
  cases h with
  | binding hn => rcases hn with hn | hn <;> rw [hn] <;> decide
  | named hn => exact (by decide : ∀ k ∈ Scope.namedDeclarationKinds, k ∉ reactiveKinds) _ hn
  | imported hn | exported hn =>
      rw [hn]
      decide

/-! ## Ways up and down -/

/-- **The nodes above what is left** are what is left of the nodes above. -/
theorem Origin.exists_ancestor (h : Origin source settings root rest p q) {n : Node}
    (hn : n ∈ p.ancestors) : ∃ a b, Kept source settings root rest a b ∧ a.node = n ∧
      b.node ∈ q.ancestors := by
  induction h with
  | root => exact absurd hn List.not_mem_nil
  | @child p q c d h hp hcd ih =>
      obtain ⟨hc, hd⟩ := mem_children_of_mem_zip hcd
      rw [Place.ancestors_of_mem_children hc] at hn
      rw [Place.ancestors_of_mem_children hd]
      rcases List.mem_cons.1 hn with rfl | hn
      · exact ⟨p, q, ⟨h, hp⟩, rfl, List.mem_cons_self⟩
      · obtain ⟨a, b, hab, ha, hb⟩ := ih hn
        exact ⟨a, b, hab, ha, List.mem_cons_of_mem _ hb⟩

/-- The names of some declarations count. -/
theorem isWord_of_mem_children {field : String} (hc : c ∈ p.children)
    (hf : c.node.field = some field)
    (hp : p.kind ∈ nameHolderKinds ∧ field ∈ ["name", "alias"] ∨
      p.kind = "for_in_statement" ∧ field = "kind") : isWord c = true := by
  obtain ⟨i, n, -, rfl⟩ := Place.mem_children_iff.1 hc
  rw [isWord, Bool.or_eq_true]
  right
  change (nameHolderKinds.contains p.kind && [some "name", some "alias"].contains n.field ||
    p.kind == "for_in_statement" && n.field == some "kind") = true
  rw [show n.field = some field from hf]
  rcases hp with ⟨hp, hfield⟩ | ⟨hp, rfl⟩
  · rw [List.contains_iff_mem.2 hp]
    rcases List.mem_pair.1 hfield with rfl | rfl <;> rfl
  · rw [hp]
    rfl

variable (hleft : isLeftOf source output settings ⟨root, []⟩ rest = true)
include hleft

/-- A named child that asks for no edit is left as a named child. -/
theorem Kept.exists_named (h : Kept source settings root rest p q) {n : Node}
    (hn : n ∈ p.node.namedChildren) : ∃ c ∈ p.children, c.node = n ∧
      (fresh source settings c = none →
        ∃ d, Kept source settings root rest c d ∧ d.node ∈ q.node.namedChildren) := by
  obtain ⟨hchild, hnamed⟩ := List.mem_filter.1 hn
  rw [← Place.map_node_children] at hchild
  obtain ⟨c, hc, rfl⟩ := List.mem_map.1 hchild
  refine ⟨c, hc, rfl, fun hfresh => ?_⟩
  have hstays : c ∈ survivors source settings p :=
    mem_survivors_iff.2 ⟨hc, by rw [isGone, hfresh]⟩
  obtain ⟨d, hd, hcd⟩ := exists_of_mem_left (h.children hleft) hstays
  refine ⟨d, ⟨hcd, hfresh⟩, List.mem_filter.2 ⟨?_, ?_⟩⟩
  · rw [← Place.map_node_children]
    exact List.mem_map_of_mem hd
  · exact (hcd.labels hleft).1.trans hnamed

/-- A named child of a kind that is never matched is left as a named child. -/
theorem Kept.exists_named_of_kind (h : Kept source settings root rest p q) {n : Node}
    (hn : n ∈ p.node.namedChildren) (hkind : n.kind ∉ reactiveKinds) :
    ∃ c d, Kept source settings root rest c d ∧ c.node = n ∧ d.node ∈ q.node.namedChildren := by
  obtain ⟨c, hc, rfl, hleaves⟩ := h.exists_named hleft hn
  have hfresh : fresh source settings c = none :=
    Option.eq_none_iff_forall_ne_some.2 fun _ he => hkind (kind_of_fresh he)
  obtain ⟨d, hcd, hd⟩ := hleaves hfresh
  exact ⟨c, d, hcd, rfl, hd⟩

/-- What fills a field is left in the field. -/
theorem Kept.exists_child? (h : Kept source settings root rest p q)
    (hp : p.kind ∉ statementListKinds) {field : String} {n : Node}
    (hn : p.node.child? field = some n) :
    ∃ c d, Origin source settings root rest c d ∧ p.child? field = some c ∧ c.node = n ∧
      q.node.child? field = some d.node := by
  rw [← Place.map_node_child?] at hn ⊢
  obtain ⟨c, hc, rfl⟩ := Option.map_eq_some_iff.1 hn
  obtain ⟨d, hd, hcd⟩ := h.exists_child?_left hleft hp hc
  exact ⟨c, d, hcd, hc, rfl, by rw [hd, Option.map_some]⟩

/-- **The names that a declaration carries** are left as they are. -/
theorem Kept.map_text_child? (h : Kept source settings root rest p q) (field : String)
    (hp : p.kind ∈ nameHolderKinds ∧ field ∈ ["name", "alias"] ∨
      p.kind = "for_in_statement" ∧ field = "kind") :
    (q.node.child? field).map (·.text output) = (p.node.child? field).map (·.text source) := by
  have hlist : p.kind ∉ statementListKinds := by
    have hkinds : ∀ k ∈ "for_in_statement" :: nameHolderKinds, k ∉ statementListKinds := by decide
    refine hkinds p.kind (List.mem_cons.2 ?_)
    exact hp.symm.imp And.left And.left
  rw [← Place.map_node_child?, ← Place.map_node_child?]
  cases hc : p.child? field with
  | none =>
      have hnone : q.child? field = none := by
        refine Option.eq_none_iff_forall_ne_some.2 fun d hd => ?_
        obtain ⟨c, hc', -⟩ := h.exists_child?_right hleft hlist hd
        rw [hc] at hc'
        cases hc'
      rw [hnone]
      rfl
  | some c =>
      obtain ⟨d, hd, hcd⟩ := h.exists_child?_left hleft hlist hc
      have hfield : c.node.field = some field := by
        simpa using List.find?_some hc
      have hword : isWord c = true := isWord_of_mem_children (mem_children_of_child? hc) hfield hp
      have htext := ((hcd.kept_of_isWord hleft hword).isKept hleft).text hword
      simp [hd, htext]

/-! ## Declared names -/

/-- A pattern that is left binds what it bound. -/
theorem Origin.binds (h : Origin source settings root rest p q) {x : String}
    (hx : Binds source p.node x) : Binds output q.node x := by
  generalize hn : p.node = n at hx
  induction hx generalizing p q with
  | name hname =>
      subst hn
      have hword : isWord p = true := by
        rw [isWord, Bool.or_eq_true]
        left
        rcases hname with hname | hname <;> rw [Place.kind, hname] <;> decide
      have hkept := (h.kept_of_isWord hleft hword).isKept hleft
      rw [← hkept.text hword]
      exact .name (hkept.kind ▸ hname)
  | @part n c x hcompound hc hx ih =>
      subst hn
      have hkinds : ∀ k ∈ Scope.compoundPatternKinds, k ∉ reactiveKinds := by decide
      have hkept := h.kept_of_kind (hkinds _ hcompound)
      obtain ⟨c, d, hcd, rfl, hd⟩ := hkept.exists_named_of_kind hleft hc (not_reactive_of_binds hx)
      exact .part ((hkept.isKept hleft).kind ▸ hcompound) hd (ih hcd.origin rfl)
  | @field n c x field hbound hc hx ih =>
      subst hn
      have hkinds : ∀ k ∈ reactiveKinds ++ statementListKinds, Scope.boundField? k = none := by
        decide
      have hother : p.kind ∉ reactiveKinds ++ statementListKinds := by
        intro hmem
        rw [hkinds _ hmem] at hbound
        cases hbound
      rw [List.mem_append, not_or] at hother
      have hkept := h.kept_of_kind hother.1
      obtain ⟨c, d, hcd, -, rfl, hd⟩ := hkept.exists_child? hleft hother.2 hc
      exact .field ((hkept.isKept hleft).kind ▸ hbound) hd (ih hcd rfl)

/-- An import that is left declares what it declared. -/
theorem Kept.imports (h : Kept source settings root rest p q) {x : String}
    (hx : Imports source p.node x) : Imports output q.node x := by
  -- No part of an import is of a kind that is ever matched.
  have named : ∀ {p q n} (kind : String), kind ∉ reactiveKinds →
      Kept source settings root rest p q → n ∈ p.node.namedChildren → n.kind = kind →
      ∃ c d, Kept source settings root rest c d ∧ c.node = n ∧ d.node ∈ q.node.namedChildren ∧
        d.kind = kind := by
    intro p q n kind hkind hpq hn hnk
    obtain ⟨c, d, hcd, rfl, hd⟩ := hpq.exists_named_of_kind hleft hn (hnk ▸ hkind)
    exact ⟨c, d, hcd, rfl, hd, (hcd.isKept hleft).kind.trans hnk⟩
  have text : ∀ {p q}, Kept source settings root rest p q → q.kind = "identifier" →
      q.node.text output = p.node.text source := by
    intro p q hpq hkind
    refine (hpq.isKept hleft).text ?_
    rw [isWord, ← (hpq.isKept hleft).kind, show q.node.kind = "identifier" from hkind]
    rfl
  cases hx with
  | default hc hk hp hn =>
      obtain ⟨_, _, hclause, rfl, hc', hk'⟩ := named _ (by decide) h hc hk
      obtain ⟨_, _, hpart, rfl, hp', hn'⟩ := named _ (by decide) hclause hp hn
      rw [← text hpart hn']
      exact .default hc' hk' hp' hn'
  | everything hc hk hp hn hi hi' =>
      obtain ⟨_, _, hclause, rfl, hc', hk'⟩ := named _ (by decide) h hc hk
      obtain ⟨_, _, hpart, rfl, hp', hn'⟩ := named _ (by decide) hclause hp hn
      obtain ⟨_, _, hname, rfl, hi, hi'⟩ := named _ (by decide) hpart hi hi'
      rw [← text hname hi']
      exact .everything hc' hk' hp' hn' hi hi'
  | @listed _ _ _ name hc hk hp hn hi hi' hname =>
      obtain ⟨_, _, hclause, rfl, hc', hk'⟩ := named _ (by decide) h hc hk
      obtain ⟨_, _, hpart, rfl, hp', hn'⟩ := named _ (by decide) hclause hp hn
      obtain ⟨s, t, hspecifier, rfl, hi, hi''⟩ := named _ (by decide) hpart hi hi'
      have hkind : s.kind ∈ nameHolderKinds := by
        rw [Place.kind, hi']
        decide
      have halias := hspecifier.map_text_child? hleft "alias" (.inl ⟨hkind, by decide⟩)
      have hown := hspecifier.map_text_child? hleft "name" (.inl ⟨hkind, by decide⟩)
      have hnames : ((t.node.child? "alias").or (t.node.child? "name")).map (·.text output) =
          some (name.text source) := by
        rw [Option.map_or, halias, hown, ← Option.map_or, hname, Option.map_some]
      obtain ⟨name, hname', htext⟩ := Option.map_eq_some_iff.1 hnames
      rw [← htext]
      exact .listed hc' hk' hp' hn' hi hi'' hname'

/-- A statement that is left declares in its block what it declared. -/
theorem Origin.declaresIn (h : Origin source settings root rest p q) {x : String}
    (hx : DeclaresIn source p.node x) : DeclaresIn output q.node x := by
  generalize hn : p.node = n at hx
  induction hx generalizing p q with
  | @binding n declarator c x hkind hd hk hc hx =>
      subst hn
      have hother : p.kind ∉ reactiveKinds := by
        rcases hkind with hkind | hkind <;> rw [Place.kind, hkind] <;> decide
      have hkept := h.kept_of_kind hother
      obtain ⟨s, t, hst, rfl, ht⟩ := hkept.exists_named_of_kind hleft hd (by rw [hk]; decide)
      have hlist : s.kind ∉ statementListKinds := by
        rw [Place.kind, hk]
        decide
      obtain ⟨c, d, hcd, -, rfl, hd'⟩ := hst.exists_child? hleft hlist hc
      exact .binding ((hkept.isKept hleft).kind ▸ hkind) ht ((hst.isKept hleft).kind.trans hk) hd'
        (hcd.binds hleft hx)
  | @named n c hkind hc =>
      subst hn
      have hkinds : ∀ k ∈ Scope.namedDeclarationKinds, k ∉ reactiveKinds ∧ k ∈ nameHolderKinds := by
        decide
      have hkept := h.kept_of_kind (hkinds _ hkind).1
      have hname := hkept.map_text_child? hleft "name" (.inl ⟨(hkinds _ hkind).2, by decide⟩)
      rw [hc, Option.map_some] at hname
      obtain ⟨d, hd, htext⟩ := Option.map_eq_some_iff.1 hname
      rw [← htext]
      exact .named ((hkept.isKept hleft).kind ▸ hkind) hd
  | @imported n x hkind hx =>
      subst hn
      have hkept := h.kept_of_kind (by rw [Place.kind, hkind]; decide)
      exact .imported ((hkept.isKept hleft).kind.trans hkind) (hkept.imports hleft hx)
  | @exported n c x hkind hc hx ih =>
      subst hn
      have hkept := h.kept_of_kind (by rw [Place.kind, hkind]; decide)
      obtain ⟨c, d, hcd, -, rfl, hd⟩ :=
        hkept.exists_child? hleft (by rw [Place.kind, hkind]; decide) hc
      exact .exported ((hkept.isKept hleft).kind.trans hkind) hd (ih hcd rfl)

variable (hvars : KeepsVariables source settings root)
include hvars

/-- A named child that declares a diagnostic object by `var` is left as a named child. -/
theorem Kept.exists_named_of_hoists (h : Kept source settings root rest p q) {n : Node}
    (hn : n ∈ p.node.namedChildren) {x : String} (hx : x ∈ settings.diagnosticObjects)
    (hh : Hoists source n x) :
    ∃ c d, Kept source settings root rest c d ∧ c.node = n ∧ d.node ∈ q.node.namedChildren := by
  obtain ⟨c, hc, rfl, hleaves⟩ := h.exists_named hleft hn
  have hmem : c ∈ Place.all root := Place.Below.mem_all (.child hc) h.origin.mem_all.1
  have hfresh : fresh source settings c = none := by
    by_contra hasks
    exact hvars c hmem hasks x hx (Scope.mem_hoistedIn_iff.2 hh)
  obtain ⟨d, hcd, hd⟩ := hleaves hfresh
  exact ⟨c, d, hcd, rfl, hd⟩

/-- A node that is left declares the diagnostic objects by `var` that it declared. -/
theorem Kept.hoists (h : Kept source settings root rest p q) {x : String}
    (hx : x ∈ settings.diagnosticObjects) (hh : Hoists source p.node x) :
    Hoists output q.node x := by
  generalize hn : p.node = n at hh
  induction hh generalizing p q with
  | @declaration n x hkind hd =>
      subst hn
      exact .declaration ((h.isKept hleft).kind.trans hkind) (h.origin.declaresIn hleft hd)
  | @loop n k c x hkind hk hvar hc hb =>
      subst hn
      have hlist : p.kind ∉ statementListKinds := by
        rw [Place.kind, hkind]
        decide
      obtain ⟨c, d, hcd, -, rfl, hd⟩ := h.exists_child? hleft hlist hc
      have hkey := h.map_text_child? hleft "kind" (.inr ⟨hkind, rfl⟩)
      rw [hk, Option.map_some] at hkey
      obtain ⟨k', hk', htext⟩ := Option.map_eq_some_iff.1 hkey
      exact .loop ((h.isKept hleft).kind.trans hkind) hk' (htext.trans hvar) hd (hcd.binds hleft hb)
  | @inside n c x hkind hc hh ih =>
      subst hn
      obtain ⟨c, d, hcd, rfl, hd⟩ := h.exists_named_of_hoists hleft hvars hc hx hh
      exact .inside ((h.isKept hleft).kind ▸ hkind) hd (ih hcd hx rfl)

/-- **A node that is left declares what it declared**, as far as diagnostic objects go. -/
theorem Kept.declares (h : Kept source settings root rest p q) {x : String}
    (hx : x ∈ settings.diagnosticObjects) {form : Scope.Form} (hseen : form.isSeen = true)
    (hd : Declares source form p.node x) : Declares output form q.node x := by
  have hkind := (h.isKept hleft).kind
  have child : ∀ {kinds : List String} {field : String} {n : Node}, p.kind ∈ kinds →
      (∀ k ∈ kinds, k ∉ statementListKinds) → p.node.child? field = some n →
      ∃ c d, Origin source settings root rest c d ∧ p.child? field = some c ∧ c.node = n ∧
        q.node.child? field = some d.node :=
    fun hn hkinds hc => h.exists_child? hleft (hkinds _ hn) hc
  cases hd with
  | parameter hn hl hc hb =>
      obtain ⟨l, m, hlm, hfield, rfl, hl'⟩ := child hn (by decide) hl
      have hparameters : l.node.field = some "parameters" := by
        simpa using List.find?_some hfield
      obtain ⟨c, d, hcd, rfl, hd⟩ := (hlm.kept_of_parameters hleft hparameters).exists_named_of_kind
        hleft hc (not_reactive_of_binds hb)
      exact .parameter (hkind ▸ hn) hl' hd (hcd.origin.binds hleft hb)
  | soleParameter hn hc hb =>
      obtain ⟨c, d, hcd, -, rfl, hd⟩ := child hn (by decide) hc
      exact .soleParameter (hkind ▸ hn) hd (hcd.binds hleft hb)
  | ownName hn hc =>
      have hholds : ∀ k ∈ Scope.selfNamedKinds, k ∈ nameHolderKinds := by decide
      have hname := h.map_text_child? hleft "name" (.inl ⟨hholds _ hn, by decide⟩)
      rw [hc, Option.map_some] at hname
      obtain ⟨d, hd, htext⟩ := Option.map_eq_some_iff.1 hname
      rw [← htext]
      exact .ownName (hkind ▸ hn) hd
  | statement hn hc hs =>
      obtain ⟨c, d, hcd, rfl, hd⟩ :=
        h.exists_named_of_kind hleft hc (not_reactive_of_declaresIn hs)
      exact .statement (hkind ▸ hn) hd (hcd.origin.declaresIn hleft hs)
  | bodyVariable hn hb hb' hc hh =>
      obtain ⟨s, t, hst, -, rfl, ht⟩ := child hn (by decide) hb
      have hbody := hst.kept_of_kind (by rw [Place.kind, hb']; decide)
      obtain ⟨c, d, hcd, rfl, hd⟩ := hbody.exists_named_of_hoists hleft hvars hc hx hh
      exact .bodyVariable (hkind ▸ hn) ht ((hbody.isKept hleft).kind.trans hb') hd
        (hcd.hoists hleft hvars hx hh)
  | programVariable hn hc hh =>
      obtain ⟨c, d, hcd, rfl, hd⟩ := h.exists_named_of_hoists hleft hvars hc hx hh
      exact .programVariable (hkind.trans hn) hd (hcd.hoists hleft hvars hx hh)
  | loopStart hn hc hs =>
      obtain ⟨c, d, hcd, -, rfl, hd⟩ :=
        child (List.mem_singleton.2 hn) (by decide) hc
      exact .loopStart (hkind.trans hn) hd (hcd.declaresIn hleft hs)
  | loopMember hn hk hc hb =>
      obtain ⟨_, _, -, -, rfl, hk'⟩ := child (List.mem_singleton.2 hn) (by decide) hk
      obtain ⟨c, d, hcd, -, rfl, hd⟩ := child (List.mem_singleton.2 hn) (by decide) hc
      exact .loopMember (hkind.trans hn) hk' hd (hcd.binds hleft hb)
  | caught hn hc hb =>
      obtain ⟨c, d, hcd, -, rfl, hd⟩ := child (List.mem_singleton.2 hn) (by decide) hc
      exact .caught (hkind.trans hn) hd (hcd.binds hleft hb)
  | switchStatement | labelledFunction | functionVariable | declarationName => cases hseen

/-- **A diagnostic object that was bound is bound in the remainder.** -/
theorem Kept.isBound (h : Kept source settings root rest p q)
    (hx : p.node.text source ∈ settings.diagnosticObjects)
    (htext : q.node.text output = p.node.text source) (hbound : Scope.isBound source p = true) :
    Scope.isBound output q = true := by
  obtain ⟨form, hseen, n, hn, hdeclares⟩ := Scope.isBound_iff.1 hbound
  obtain ⟨a, b, hab, rfl, hb⟩ := h.origin.exists_ancestor hn
  refine Scope.isBound_iff.2 ⟨form, hseen, b.node, hb, ?_⟩
  rw [htext]
  exact hab.declares hleft hvars hx hseen hdeclares

end

end ScriptScrub.Sanitizer
