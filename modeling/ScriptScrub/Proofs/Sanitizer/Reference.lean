import ScriptScrub.Proofs.Sanitizer.Matching

/-!
# What a match is about

A call is read in more than one way: as a direct call of a reference, as a forwarded one, or as a
bind. No call can be read in two of them (`reference_unique`), so a node is diagnostic by one object
and one severity at most (`IsAbout.unique`), and if it is matched, it is because of these
(`Match.ok_of_isAbout`).
-/

namespace ScriptScrub.Sanitizer

open Config (SanitizerSettings)

/-- The field of an access that names the member. -/
def memberField (kind : String) : String :=
  if kind = "member_expression" then "property" else "index"

/-! ## References -/

section
variable {source : Bytes} {settings : SanitizerSettings} {p r o : Place} {s : String}

/-- An access is a node of one of the two kinds, and its member is a name or a string. -/
theorem access?_eq_some (h : access? source p = some (o, s)) :
    p.kind ∈ accessKinds ∧ p.child? "object" = some o ∧
      ∃ m, p.child? (memberField p.kind) = some m ∧
        m.kind ∈ ["identifier", "property_identifier", "string"] := by
  unfold access? at h
  split at h
  · next hp =>
    simp only [Option.bind_eq_bind, Option.bind_eq_some_iff] at h
    obtain ⟨object, hobject, property, hproperty, h⟩ := h
    split at h
    · next hkind =>
      cases h
      refine ⟨by simp [hp, accessKinds], hobject, property, ?_, ?_⟩
      · rw [memberField, if_pos hp, hproperty]
      · rcases hkind with hkind | hkind <;> simp [hkind]
    · cases h
  split at h
  · next hp =>
    simp only [Option.bind_eq_bind, Option.bind_eq_some_iff] at h
    obtain ⟨object, hobject, index, hindex, h⟩ := h
    split at h
    · next hkind =>
      cases h
      refine ⟨by simp [hp, accessKinds], hobject, index, ?_, ?_⟩
      · rw [memberField, if_neg (by simp [hp]), hindex]
      · simp [hkind]
    · cases h
  · cases h

/-- A reference is an access. -/
theorem IsReference.kind (h : IsReference source settings r o s) : r.kind ∈ accessKinds :=
  (access?_eq_some h.access).1

/-- A reference is not an identifier. -/
theorem IsReference.not_identifier (h : IsReference source settings r o s) :
    r.kind ≠ "identifier" := by
  intro hr
  have := h.kind
  rw [hr] at this
  exact absurd this (by decide)

/-- A reference has one object and one severity. -/
theorem IsReference.unique {o' : Place} {s' : String} (h : IsReference source settings r o s)
    (h' : IsReference source settings r o' s') : o = o' ∧ s = s' := by
  have := h.access.symm.trans h'.access
  simpa using this

/-- What calls a reference is a call. -/
theorem Calls.isCall (h : Calls source p r) : p.kind = "call_expression" := by
  cases h with
  | direct isCall => exact isCall
  | forwarded _ h => exact h.isCall

/-- A call is not an access. -/
theorem Calls.not_access (h : Calls source p r) : p.kind ∉ accessKinds := by
  rw [h.isCall]
  decide

/-! ## Calls -/

/-- The reference that a method is called of is not an identifier, so the call is no direct call of
a reference. -/
theorem CallsMethod.not_direct {c o' : Place} {s' method : String}
    (h : CallsMethod source p r method) (hr : IsReference source settings r o s)
    (hc : p.child? "function" = some c) : ¬ IsReference source settings c o' s' := by
  intro hc'
  obtain ⟨d, hd, hacc⟩ := h.callee
  rw [hc, Option.some.injEq] at hd
  subst hd
  have := hc'.access.symm.trans hacc
  simp only [Option.some.injEq, Prod.mk.injEq] at this
  obtain ⟨rfl, -⟩ := this
  exact hr.not_identifier hc'.identifier

/-- A call calls one method. -/
theorem CallsMethod.unique {r' : Place} {method method' : String}
    (h : CallsMethod source p r method) (h' : CallsMethod source p r' method') :
    r = r' ∧ method = method' := by
  obtain ⟨c, hc, hacc⟩ := h.callee
  obtain ⟨c', hc', hacc'⟩ := h'.callee
  rw [hc, Option.some.injEq] at hc'
  subst hc'
  have := hacc.symm.trans hacc'
  simpa using this

/-- **A call is about one reference**, whether it is read as a direct call or as a forwarded
one. -/
theorem reference_unique {r' o' : Place} {s' : String} (h : Calls source p r)
    (hr : IsReference source settings r o s) (h' : Calls source p r')
    (hr' : IsReference source settings r' o' s') : o = o' ∧ s = s' := by
  cases h with
  | direct hp hc =>
      cases h' with
      | direct hp' hc' =>
          rw [hc, Option.some.injEq] at hc'
          subst hc'
          exact hr.unique hr'
      | forwarded hm h' => exact absurd hr (h'.not_direct hr' hc)
  | forwarded hm h =>
      cases h' with
      | direct hp' hc' => exact absurd hr' (h.not_direct hr hc')
      | forwarded hm' h' =>
          obtain ⟨rfl, -⟩ := h.unique h'
          exact hr.unique hr'

/-- A call of a reference binds none. -/
theorem Calls.not_bind {r' o' : Place} {s' : String} (h : Calls source p r)
    (hr : IsReference source settings r o s) (h' : CallsMethod source p r' "bind") :
    ¬ IsReference source settings r' o' s' := by
  intro hr'
  cases h with
  | direct _ hc => exact h'.not_direct hr' hc hr
  | forwarded hm h =>
      obtain ⟨-, rfl⟩ := h.unique h'
      exact absurd hm (by decide)

/-- What binds a reference is a call. -/
theorem CallsMethod.not_access {method : String} (h : CallsMethod source p r method) :
    p.kind ∉ accessKinds := by
  rw [h.isCall]
  decide

/-- An expression is diagnostic by one object and one severity. -/
theorem IsDiagnostic.unique {o' : Place} {s' : String} (h : IsDiagnostic source settings p o s)
    (h' : IsDiagnostic source settings p o' s') : o = o' ∧ s = s' := by
  cases h with
  | call hc hr =>
      cases h' with
      | call hc' hr' => exact reference_unique hc hr hc' hr'
      | bind hc' hr' => exact absurd hr' (hc.not_bind hr hc')
      | detached hr' => exact absurd hr'.kind hc.not_access
  | bind hc hr =>
      cases h' with
      | call hc' hr' => exact absurd hr (hc'.not_bind hr' hc)
      | bind hc' hr' =>
          obtain ⟨rfl, -⟩ := hc.unique hc'
          exact hr.unique hr'
      | detached hr' => exact absurd hr'.kind hc.not_access
  | detached hr =>
      cases h' with
      | call hc' => exact absurd hr.kind hc'.not_access
      | bind hc' => exact absurd hr.kind hc'.not_access
      | detached hr' => exact hr.unique hr'

/-- A diagnostic expression is a call or an access. -/
theorem IsDiagnostic.kind (h : IsDiagnostic source settings p o s) :
    p.kind = "call_expression" ∨ p.kind ∈ accessKinds := by
  cases h with
  | call hc => exact .inl hc.isCall
  | bind hc => exact .inl hc.isCall
  | detached hr => exact .inr hr.kind

/-! ## Matches -/

/-- The node is diagnostic by the object `o` and the severity `s`, or it is a statement that
consists of such an expression. -/
inductive IsAbout (source : Bytes) (settings : SanitizerSettings) (p o : Place) (s : String) :
    Prop where
  | expression (hd : IsDiagnostic source settings p o s)
  | statement {x : Place} (hp : p.kind = "expression_statement")
      (hx : statementExpression? p = some x) (hd : IsDiagnostic source settings x o s)

/-- A statement is no diagnostic expression. -/
theorem IsDiagnostic.not_statement (h : IsDiagnostic source settings p o s) :
    p.kind ≠ "expression_statement" := by
  intro hp
  rcases h.kind with hk | hk <;> rw [hp] at hk <;> exact absurd hk (by decide)

/-- **A node is about one object and one severity.** -/
theorem IsAbout.unique {o' : Place} {s' : String} (h : IsAbout source settings p o s)
    (h' : IsAbout source settings p o' s') : o = o' ∧ s = s' := by
  cases h with
  | expression hd =>
      cases h' with
      | expression hd' => exact hd.unique hd'
      | statement hp => exact absurd hp hd.not_statement
  | statement hp hx hd =>
      cases h' with
      | expression hd' => exact absurd hp hd'.not_statement
      | statement _ hx' hd' =>
          rw [hx, Option.some.injEq] at hx'
          subst hx'
          exact hd.unique hd'

/-- What is about a diagnostic object is no comment. -/
theorem IsAbout.not_comment (h : IsAbout source settings p o s) : isComment p.node = false := by
  have kinds : ∀ k ∈ "expression_statement" :: "call_expression" :: accessKinds,
      commentKinds.contains k = false := by decide
  refine kinds p.node.kind ?_
  cases h with
  | statement hp => exact List.mem_cons.2 (.inl hp)
  | expression hd => exact List.mem_cons_of_mem _ (List.mem_cons.2 hd.kind)

variable {ok : Place → String → Prop} {e : RuleEdit}

/-- A match is that of a comment, or of a node that is about something that may go. -/
theorem Match.isAbout (h : Match source settings ok p e) :
    (isComment p.node = true ∧ e.rule = .stripComments) ∨
      ∃ o s, ok o s ∧ IsAbout source settings p o s := by
  cases h with
  | comment hn => exact .inl ⟨hn, rfl⟩
  | statement hp hx hd ho => exact .inr ⟨_, _, ho, .statement hp hx hd⟩
  | call hc hr ho => exact .inr ⟨_, _, ho, .expression (.call hc hr)⟩
  | bind hc hr ho => exact .inr ⟨_, _, ho, .expression (.bind hc hr)⟩
  | detached hr hv ho => exact .inr ⟨_, _, ho, .expression (.detached hr hv)⟩

/-- **What is matched may go**: the object and the severity that it is about satisfy `ok`. -/
theorem Match.ok_of_isAbout (h : Match source settings ok p e)
    (ha : IsAbout source settings p o s) : ok o s := by
  rcases h.isAbout with ⟨hn, -⟩ | ⟨o', s', ho, ha'⟩
  · rw [ha.not_comment] at hn
    cases hn
  · obtain ⟨rfl, rfl⟩ := ha.unique ha'
    exact ho

end

end ScriptScrub.Sanitizer
