import ScriptScrub.Proofs.Sanitizer.KeptNames
import ScriptScrub.Proofs.Sanitizer.Outermost

/-!
# Nothing more to remove

Matching misses nothing, so what asks for an edit is what a rule removes (`about_of_fresh`). What is
diagnostic in a remainder was diagnostic before, by what the object is left of
(`Kept.isDiagnostic`). So no place of a remainder asks for an edit (`fresh_eq_none_of_left`).
-/

namespace ScriptScrub.Sanitizer

open Config (SanitizerSettings)

/-! ## What asks for an edit -/

section
variable {source : Bytes} {settings : SanitizerSettings} {p r o : Place} {s : String}

/-- A comment asks for an edit. -/
theorem fresh_ne_none_of_isComment (hn : isComment p.node = true)
    (hr : .stripComments ∈ settings.rules) : fresh source settings p ≠ none :=
  matchGiven_ne_none_of_isComment hn hr

/-- An expression asks for an edit that is diagnostic by a name that is not bound and a severity
that is not preserved. -/
theorem fresh_ne_none_of_isDiagnostic (hr : .removeDiagnosticCall ∈ settings.rules)
    (h : IsDiagnostic source settings p o s) (hs : s ∉ settings.preservedSeverities)
    (ho : Scope.isBound source o = false) : fresh source settings p ≠ none :=
  matchGiven_ne_none_of_isDiagnostic hr h hs ho

/-- A child is used as a value unless it is the object of an access or the target of an
assignment. -/
theorem isValuePosition_iff {a : Place} (hp : p ∈ a.children) :
    isValuePosition p = true ↔ ¬ (a.kind ∈ accessKinds ∧ p.fills "object" = true) ∧
      ¬ (a.kind ∈ assignmentKinds ∧ p.fills "left" = true) := by
  obtain ⟨i, n, -, rfl⟩ := Place.mem_children_iff.1 hp
  change (if accessKinds.contains a.kind && (a.down i n).fills "object" then false
    else if assignmentKinds.contains a.kind then !(a.down i n).fills "left" else true) = true ↔ _
  rw [← List.contains_iff_mem, ← List.contains_iff_mem]
  cases accessKinds.contains a.kind <;> cases (a.down i n).fills "object" <;>
    cases assignmentKinds.contains a.kind <;> cases (a.down i n).fills "left" <;> simp

/-- **What asks for an edit** is a comment or about a name that is not bound and a severity that is
not preserved, and the settings have the rule for it. -/
theorem about_of_fresh {e : RuleEdit} (h : fresh source settings p = some e) :
    isComment p.node = true ∧ .stripComments ∈ settings.rules ∨
      .removeDiagnosticCall ∈ settings.rules ∧ ∃ o s, IsAbout source settings p o s ∧
        s ∉ settings.preservedSeverities ∧ Scope.isBound source o = false := by
  have hmatch := match?_eq_some (h ▸ answers_fresh source settings p)
  rcases hmatch.isAbout with ⟨hcomment, -⟩ | ⟨o, s, ⟨hs, ho⟩, habout⟩
  · refine .inl ⟨hcomment, ?_⟩
    by_contra hr
    rw [fresh, match?, if_pos hcomment, if_neg (by simp [hr])] at h
    cases h
  · refine .inr ⟨?_, o, s, habout, hs, ho.pure.symm⟩
    by_contra hr
    rw [fresh, match?, if_neg (Bool.eq_false_iff.1 habout.not_comment), if_pos (by simp [hr])] at h
    cases h

end

/-! ## What is diagnostic in a remainder -/

section
variable {source output : Bytes} {settings : SanitizerSettings} {root rest : Node}
variable {p q o' r' : Place} {s : String}
variable (hleft : isLeftOf source output settings ⟨root, []⟩ rest = true)
include hleft

/-- A word of the remainder is the word that it was. -/
theorem Origin.word (h : Origin source settings root rest p q) (hq : q.kind ∈ wordKinds) :
    Kept source settings root rest p q ∧ p.kind = q.kind ∧
      q.node.text output = p.node.text source := by
  have hkept := h.kept_of_left hleft (.inr hq)
  have hkind := (hkept.isKept hleft).kind
  have hword : isWord p = true := by
    rw [isWord, Bool.or_eq_true]
    exact .inl (List.contains_iff_mem.2 (hkind ▸ hq))
  exact ⟨hkept, hkind.symm, (hkept.isKept hleft).text hword⟩

/-- The object and the member of an access of the remainder are what is left of those that were
there, and the member is the word that it was. -/
theorem Kept.exists_parts (h : Kept source settings root rest p q)
    (hp : p.kind ∉ statementListKinds) {field : String} {m' : Place}
    (ho : q.child? "object" = some o') (hm : q.child? field = some m')
    (hword : m'.kind ∈ wordKinds) :
    ∃ o m, Origin source settings root rest o o' ∧ p.child? "object" = some o ∧
      p.child? field = some m ∧ m.kind = m'.kind ∧ m'.node.text output = m.node.text source := by
  obtain ⟨o, hpo, ho⟩ := h.exists_child?_right hleft hp ho
  obtain ⟨m, hpm, hm⟩ := h.exists_child?_right hleft hp hm
  obtain ⟨-, hsame, htext⟩ := hm.word hleft hword
  exact ⟨o, m, ho, hpo, hpm, hsame, htext⟩

/-- An access of the remainder names the member that it named, of what its object is left of. -/
theorem Kept.access? (h : Kept source settings root rest p q)
    (hq : access? output q = some (o', s)) :
    ∃ o, Origin source settings root rest o o' ∧ access? source p = some (o, s) := by
  have hkind : q.kind = p.kind := (h.isKept hleft).kind
  unfold Sanitizer.access? at hq ⊢
  rw [hkind] at hq
  split at hq
  · next hp =>
    rw [if_pos hp]
    simp only [Option.bind_eq_bind, Option.bind_eq_some_iff] at hq
    obtain ⟨object, hobject, property, hproperty, hq⟩ := hq
    split at hq
    · next hname =>
      cases hq
      obtain ⟨o, m, ho, hpo, hpm, hsame, htext⟩ := h.exists_parts hleft (by rw [hp]; decide) hobject
        hproperty (by rcases hname with h | h <;> rw [h] <;> decide)
      refine ⟨o, ho, ?_⟩
      simp only [Option.bind_eq_bind, hpo, hpm, Option.bind_some, hsame, if_pos hname, htext]
    · cases hq
  split at hq
  · next hp' hp =>
    rw [if_neg hp', if_pos hp]
    simp only [Option.bind_eq_bind, Option.bind_eq_some_iff] at hq
    obtain ⟨object, hobject, index, hindex, hq⟩ := hq
    split at hq
    · next hname =>
      cases hq
      obtain ⟨o, m, ho, hpo, hpm, hsame, htext⟩ := h.exists_parts hleft (by rw [hp]; decide) hobject
        hindex (by rw [hname]; decide)
      refine ⟨o, ho, ?_⟩
      simp only [Option.bind_eq_bind, hpo, hpm, Option.bind_some, hsame, if_pos hname, htext]
    · cases hq
  · cases hq

/-- A reference of the remainder is one that was there. -/
theorem Origin.isReference (h : Origin source settings root rest p q)
    (hq : IsReference output settings q o' s) :
    ∃ o, Kept source settings root rest o o' ∧ o'.node.text output = o.node.text source ∧
      IsReference source settings p o s := by
  have hkept := h.kept_of_left hleft (.inl (List.mem_append_right _ hq.kind))
  obtain ⟨o, ho, hacc⟩ := hkept.access? hleft hq.access
  obtain ⟨hkept', hkind, htext⟩ := ho.word hleft (by rw [hq.identifier]; decide)
  exact ⟨o, hkept', htext, hacc, hkind.trans hq.identifier, htext ▸ hq.diagnostic⟩

/-- A method of the remainder that is called was called, of what the object is left of. -/
theorem Kept.callsMethod (h : Kept source settings root rest p q) {method : String}
    (hq : CallsMethod output q r' method) :
    ∃ r, Origin source settings root rest r r' ∧ CallsMethod source p r method := by
  have hp : p.kind = "call_expression" := (h.isKept hleft).kind.symm.trans hq.isCall
  obtain ⟨callee', hcallee', hacc'⟩ := hq.callee
  obtain ⟨callee, hchild, hcallee⟩ := h.exists_child?_right hleft (by rw [hp]; decide) hcallee'
  have hkept := hcallee.kept_of_left hleft
    (.inl (List.mem_append_right _ (access?_eq_some hacc').1))
  obtain ⟨r, hr, hacc⟩ := hkept.access? hleft hacc'
  exact ⟨r, hr, hp, callee, hchild, hacc⟩

/-- What is called in the remainder was called. -/
theorem Kept.calls (h : Kept source settings root rest p q) (hq : Calls output q r') :
    ∃ r, Origin source settings root rest r r' ∧ Calls source p r := by
  cases hq with
  | direct isCall callee =>
      have hp : p.kind = "call_expression" := (h.isKept hleft).kind.symm.trans isCall
      obtain ⟨r, hchild, hr⟩ := h.exists_child?_right hleft (by rw [hp]; decide) callee
      exact ⟨r, hr, .direct hp hchild⟩
  | forwarded hm hc =>
      obtain ⟨r, hr, hc⟩ := h.callsMethod hleft hc
      exact ⟨r, hr, .forwarded hm hc⟩

/-- What is used as a value in the remainder was used as a value. -/
theorem Origin.isValuePosition (h : Origin source settings root rest p q)
    (hq : isValuePosition q = true) : isValuePosition p = true := by
  cases h with
  | root => rfl
  | @child a b p q h ha hpq =>
      obtain ⟨hp, hq'⟩ := mem_children_of_mem_zip hpq
      have hkept : Kept source settings root rest a b := ⟨h, ha⟩
      have fills : ∀ {kinds : List String} {field : String}, a.kind ∈ kinds →
          (∀ k ∈ kinds, k ∉ statementListKinds) → p.fills field = true → q.fills field = true := by
        intro kinds field ha' hkinds hfills
        rw [Place.fills_iff hp] at hfills
        rw [Place.fills_iff hq']
        obtain ⟨d, hd, hpd⟩ := hkept.exists_child?_left hleft (hkinds _ ha') hfills
        rw [hd, hpd.unique (.child h ha hpq)]
      rw [isValuePosition_iff hq', show b.kind = a.kind from (hkept.isKept hleft).kind] at hq
      rw [isValuePosition_iff hp]
      exact ⟨fun h => hq.1 ⟨h.1, fills h.1 (by decide) h.2⟩,
        fun h => hq.2 ⟨h.1, fills h.1 (by decide) h.2⟩⟩

/-- **What is diagnostic in the remainder was diagnostic**, by an object that is left with its
name. -/
theorem Kept.isDiagnostic (h : Kept source settings root rest p q)
    (hq : IsDiagnostic output settings q o' s) :
    ∃ o, Kept source settings root rest o o' ∧ o'.node.text output = o.node.text source ∧
      o.node.text source ∈ settings.diagnosticObjects ∧ IsDiagnostic source settings p o s := by
  cases hq with
  | call hc hr =>
      obtain ⟨r, hrr, hc⟩ := h.calls hleft hc
      obtain ⟨o, ho, htext, hr⟩ := hrr.isReference hleft hr
      exact ⟨o, ho, htext, hr.diagnostic, .call hc hr⟩
  | bind hc hr =>
      obtain ⟨r, hrr, hc⟩ := h.callsMethod hleft hc
      obtain ⟨o, ho, htext, hr⟩ := hrr.isReference hleft hr
      exact ⟨o, ho, htext, hr.diagnostic, .bind hc hr⟩
  | detached hr hv =>
      obtain ⟨o, ho, htext, hr⟩ := h.origin.isReference hleft hr
      exact ⟨o, ho, htext, hr.diagnostic, .detached hr (h.origin.isValuePosition hleft hv)⟩

/-- **No comment is left** where comments go. -/
theorem not_isComment_of_left (hr : .stripComments ∈ settings.rules) (hq : q ∈ Place.all rest) :
    isComment q.node = false := by
  refine Bool.eq_false_iff.2 fun hcomment => ?_
  have hkind : q.kind ∈ reactiveKinds := List.mem_append_left _
    (List.mem_append_left _ (List.contains_iff_mem.1 hcomment))
  obtain ⟨p, h⟩ := exists_kept hleft hq hkind
  have hcomment' : isComment p.node = true := by
    rwa [isComment, (h.isKept hleft).kind] at hcomment
  exact fresh_ne_none_of_isComment hcomment' hr h.unasked

variable (hvars : KeepsVariables source settings root)
include hvars

/-- **No diagnostic expression is left** where they go, except by a name that is bound or a severity
that is preserved. -/
theorem isBound_of_left (hr : .removeDiagnosticCall ∈ settings.rules) (hq : q ∈ Place.all rest)
    (hd : IsDiagnostic output settings q o' s) (hs : s ∉ settings.preservedSeverities) :
    Scope.isBound output o' = true := by
  have hkind : q.kind ∈ reactiveKinds := by
    rw [reactiveKinds, List.append_assoc, List.mem_append, List.mem_append]
    rcases hd.kind with hk | hk
    · exact .inr (.inl (by rw [hk]; decide))
    · exact .inr (.inr hk)
  obtain ⟨p, h⟩ := exists_kept hleft hq hkind
  obtain ⟨o, ho, htext, hobject, hd⟩ := h.isDiagnostic hleft hd
  refine ho.isBound hleft hvars hobject htext ?_
  by_contra hfree
  exact fresh_ne_none_of_isDiagnostic hr hd hs (Bool.eq_false_iff.2 hfree) h.unasked

/-- **No place of a remainder asks for an edit.** -/
theorem fresh_eq_none_of_left (hq : q ∈ Place.all rest) : fresh output settings q = none := by
  refine Option.eq_none_iff_forall_ne_some.2 fun e he => ?_
  rcases about_of_fresh he with ⟨hcomment, hr⟩ | ⟨hr, o, s, habout, hs, ho⟩
  · rw [not_isComment_of_left hleft hr hq] at hcomment
    cases hcomment
  · have hbound : Scope.isBound output o = true := by
      cases habout with
      | expression hd => exact isBound_of_left hleft hvars hr hq hd hs
      | statement _ hx hd =>
          have hbelow := Place.Below.child (mem_children_of_statementExpression? hx)
          exact isBound_of_left hleft hvars hr (hbelow.mem_all hq) hd hs
    rw [ho] at hbound
    cases hbound

end

end ScriptScrub.Sanitizer
