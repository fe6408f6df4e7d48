import ScriptScrub.Proofs.Stateful
import ScriptScrub.Sanitizer.Matching

/-!
# What matching can answer

Whether a name is bound is asked of an index that remembers what it computed, so what matching a
node answers may depend on the state it starts from. Every function of the matcher has one lemma
that says what a positive answer rests on, whatever that state is; `match?_eq_some` does it for the
matcher itself.
-/

namespace ScriptScrub.Sanitizer

open Config (SanitizerSettings)

/-! ## Diagnostic references -/

/-- The place `r` names the member `severity` of the identifier `o`, a diagnostic object. -/
structure IsReference (source : Bytes) (settings : SanitizerSettings) (r o : Place)
    (severity : String) : Prop where
  access : access? source r = some (o, severity)
  identifier : o.kind = "identifier"
  diagnostic : o.node.text source ∈ settings.diagnosticObjects

section
variable {σ : Type} {source : Bytes} {settings : SanitizerSettings}
variable {bound : Place → StateM σ Bool}

/-- A reference that is read names a diagnostic object that was not found to be bound. -/
theorem referenceSeverity_eq_some {p : Place} {severity : String}
    (h : Answers (referenceSeverity source settings bound p) (some severity)) :
    ∃ o, IsReference source settings p o severity ∧ Answers (bound o) false := by
  unfold referenceSeverity at h
  split at h
  · exact nomatch h.pure
  · next o s hacc =>
    split at h
    · next hobj =>
      simp only [Bool.and_eq_true, beq_iff_eq, List.contains_iff_mem] at hobj
      obtain ⟨b, hans, h⟩ := Answers.bind h
      cases b with
      | true => exact nomatch h.pure
      | false =>
          cases h.pure
          exact ⟨o, ⟨hacc, hobj.1, hobj.2⟩, hans⟩
    · exact nomatch h.pure

/-- A severity that may be removed is one that the settings do not preserve. -/
theorem isRemovableSeverity_eq_true {severity : Option String} :
    isRemovableSeverity settings severity = true ↔
      ∃ s, severity = some s ∧ s ∉ settings.preservedSeverities := by
  cases severity with
  | none => simp [isRemovableSeverity]
  | some s => simp [isRemovableSeverity]

/-- A reference that may be removed names a diagnostic object that was not found to be bound, and
a severity that is not preserved. -/
theorem isRemovableReference_eq_true {p : Place}
    (h : Answers (isRemovableReference source settings bound p) true) :
    ∃ o s, IsReference source settings p o s ∧ s ∉ settings.preservedSeverities ∧
      Answers (bound o) false := by
  obtain ⟨severity, hans, hsev⟩ := Answers.map h
  obtain ⟨s, rfl, hs⟩ := isRemovableSeverity_eq_true.1 hsev
  obtain ⟨o, href, ho⟩ := referenceSeverity_eq_some hans
  exact ⟨o, s, href, hs, ho⟩

/-! ## Calls and binds -/

/-- The call `p` calls a method of `r`. -/
structure CallsMethod (source : Bytes) (p r : Place) (method : String) : Prop where
  isCall : p.kind = "call_expression"
  callee : ∃ c, p.child? "function" = some c ∧ access? source c = some (r, method)

/-- The call `p` calls the reference `r`, directly or by a forwarding method. -/
inductive Calls (source : Bytes) (p r : Place) : Prop where
  | direct (isCall : p.kind = "call_expression") (callee : p.child? "function" = some r)
  | forwarded {method : String} (hm : method ∈ forwardingMethods)
      (h : CallsMethod source p r method)

/-- A diagnostic call calls a diagnostic reference, directly or by a forwarding method. -/
theorem callSeverity_eq_some {p : Place} {severity : String}
    (h : Answers (callSeverity source settings bound p) (some severity)) :
    ∃ r o, Calls source p r ∧ IsReference source settings r o severity ∧
      Answers (bound o) false := by
  unfold callSeverity at h
  split at h
  · exact nomatch h.pure
  · next hp =>
    have hp := Decidable.not_not.1 hp
    split at h
    · exact nomatch h.pure
    · next callee hc =>
      obtain ⟨a, hans, h⟩ := Answers.bind h
      cases a with
      | some s =>
          cases h.pure
          obtain ⟨o, href, ho⟩ := referenceSeverity_eq_some hans
          exact ⟨callee, o, .direct hp hc, href, ho⟩
      | none =>
          dsimp only at h
          split at h
          · next object method hacc =>
            split at h
            · next hm =>
              rw [List.contains_iff_mem] at hm
              obtain ⟨o, href, ho⟩ := referenceSeverity_eq_some h
              exact ⟨object, o, .forwarded hm ⟨hp, callee, hc, hacc⟩, href, ho⟩
            · exact nomatch h.pure
          · exact nomatch h.pure

/-! ## Removable expressions -/

/-- The expression `x` is diagnostic by its object `o` and the severity `s`: it calls a reference,
binds one, or is one that is used as a value. -/
inductive IsDiagnostic (source : Bytes) (settings : SanitizerSettings) (x o : Place) (s : String) :
    Prop where
  | call {r : Place} (hc : Calls source x r) (hr : IsReference source settings r o s)
  | bind {r : Place} (hc : CallsMethod source x r "bind") (hr : IsReference source settings r o s)
  | detached (hr : IsReference source settings x o s) (hv : isValuePosition x = true)

/-- A call that may be removed calls a reference of a severity that is not preserved. -/
theorem isRemovableCall_eq_true {p : Place}
    (h : Answers (isRemovableCall source settings bound p) true) :
    ∃ r o s, Calls source p r ∧ IsReference source settings r o s ∧
      s ∉ settings.preservedSeverities ∧ Answers (bound o) false := by
  obtain ⟨severity, hans, hsev⟩ := Answers.map h
  obtain ⟨s, rfl, hs⟩ := isRemovableSeverity_eq_true.1 hsev
  obtain ⟨r, o, hcall, href, ho⟩ := callSeverity_eq_some hans
  exact ⟨r, o, s, hcall, href, hs, ho⟩

/-- A bind that may be removed binds a reference of a severity that is not preserved. -/
theorem isRemovableBind_eq_true {p : Place}
    (h : Answers (isRemovableBind source settings bound p) true) :
    ∃ r o s, CallsMethod source p r "bind" ∧ IsReference source settings r o s ∧
      s ∉ settings.preservedSeverities ∧ Answers (bound o) false := by
  unfold isRemovableBind at h
  split at h
  · exact nomatch h.pure
  · next hp =>
    have hp := Decidable.not_not.1 hp
    split at h
    · next object hacc =>
      obtain ⟨c, hc, hacc⟩ := Option.bind_eq_some_iff.1 hacc
      obtain ⟨o, s, href, hs, ho⟩ := isRemovableReference_eq_true h
      exact ⟨object, o, s, ⟨hp, c, hc, hacc⟩, href, hs, ho⟩
    · exact nomatch h.pure

/-- A detached reference is a reference, of a severity that is not preserved, used as a value. -/
theorem isDetachedReference_eq_true {p : Place}
    (h : Answers (isDetachedReference source settings bound p) true) :
    ∃ o s, IsReference source settings p o s ∧ isValuePosition p = true ∧
      s ∉ settings.preservedSeverities ∧ Answers (bound o) false := by
  obtain ⟨b, hans, h⟩ := Answers.bind h
  cases b with
  | false => exact nomatch h.pure
  | true =>
      obtain ⟨o, s, href, hs, ho⟩ := isRemovableReference_eq_true hans
      exact ⟨o, s, href, h.pure.symm, hs, ho⟩

/-- An expression that may be removed is diagnostic, by a severity that is not preserved. -/
theorem isRemovableExpression_eq_true {p : Place}
    (h : Answers (isRemovableExpression source settings bound p) true) :
    ∃ o s, IsDiagnostic source settings p o s ∧ s ∉ settings.preservedSeverities ∧
      Answers (bound o) false := by
  obtain ⟨a, hans, h⟩ := Answers.bind h
  cases a with
  | true =>
      obtain ⟨r, o, s, hcall, href, hs, ho⟩ := isRemovableCall_eq_true hans
      exact ⟨o, s, .call hcall href, hs, ho⟩
  | false =>
      obtain ⟨b, hans, h⟩ := Answers.bind h
      cases b with
      | true =>
          obtain ⟨r, o, s, hcall, href, hs, ho⟩ := isRemovableBind_eq_true hans
          exact ⟨o, s, .bind hcall href, hs, ho⟩
      | false =>
          obtain ⟨o, s, href, hv, hs, ho⟩ := isDetachedReference_eq_true h
          exact ⟨o, s, .detached href hv, hs, ho⟩

/-! ## The matcher -/

/-- What an edit of the place `p` rests on: `ok o s` says of the object and the severity of a
diagnostic expression that it may go. -/
inductive Match (source : Bytes) (settings : SanitizerSettings) (ok : Place → String → Prop)
    (p : Place) : RuleEdit → Prop where
  /-- A comment goes. -/
  | comment (hn : isComment p.node = true) (hr : .stripComments ∈ settings.rules) :
      Match source settings ok p ⟨⟨p.node.start, p.node.stop, ""⟩, .stripComments⟩
  /-- A statement goes if all it consists of is a diagnostic expression. -/
  | statement {x o : Place} {s : String} (hp : p.kind = "expression_statement")
      (hx : statementExpression? p = some x) (hd : IsDiagnostic source settings x o s)
      (ho : ok o s) :
      Match source settings ok p
        (diagnosticEdit p.node (if inStatementList p then "" else emptyBlock))
  /-- A call whose value is used becomes nothing. -/
  | call {r o : Place} {s : String} (hc : Calls source p r)
      (hr : IsReference source settings r o s) (ho : ok o s) :
      Match source settings ok p (diagnosticEdit p.node voidExpression)
  /-- A bind becomes an empty function. -/
  | bind {r o : Place} {s : String} (hc : CallsMethod source p r "bind")
      (hr : IsReference source settings r o s) (ho : ok o s) :
      Match source settings ok p (diagnosticEdit p.node emptyFunction)
  /-- A reference that is used as a value becomes an empty function. -/
  | detached {o : Place} {s : String} (hr : IsReference source settings p o s)
      (hv : isValuePosition p = true) (ho : ok o s) :
      Match source settings ok p (diagnosticEdit p.node emptyFunction)

/-- The severity is not preserved, and the object was looked up and not found to be bound. -/
def MayGo (settings : SanitizerSettings) (bound : Place → StateM σ Bool)
    (o : Place) (s : String) : Prop :=
  s ∉ settings.preservedSeverities ∧ Answers (bound o) false

/-- **Inverting the matcher.** An edit is that of a comment, or of an expression or statement that
is diagnostic by an object that was not found to be bound and a severity that is not preserved. -/
theorem match?_eq_some {p : Place} {e : RuleEdit}
    (h : Answers (match? source settings bound p) (some e)) :
    Match source settings (MayGo settings bound) p e := by
  unfold match? at h
  dsimp only at h
  split at h
  · next hn =>
    split at h
    · next hr =>
      cases h.pure
      exact .comment hn (List.contains_iff_mem.1 hr)
    · exact nomatch h.pure
  split at h
  · exact nomatch h.pure
  split at h
  · next hp =>
    split at h
    · exact nomatch h.pure
    · next x hx =>
      obtain ⟨a, hans, h⟩ := Answers.bind h
      cases a with
      | false => exact nomatch h.pure
      | true =>
          cases h.pure
          obtain ⟨o, s, hd, hs, ho⟩ := isRemovableExpression_eq_true hans
          exact .statement hp hx hd ⟨hs, ho⟩
  split at h
  · obtain ⟨a, hans, h⟩ := Answers.bind h
    cases a with
    | true =>
        cases h.pure
        obtain ⟨r, o, s, hc, hr, hs, ho⟩ := isRemovableCall_eq_true hans
        exact .call hc hr ⟨hs, ho⟩
    | false =>
        obtain ⟨b, hans, h⟩ := Answers.bind h
        cases b with
        | true =>
            cases h.pure
            obtain ⟨r, o, s, hc, hr, hs, ho⟩ := isRemovableBind_eq_true hans
            exact .bind hc hr ⟨hs, ho⟩
        | false => exact nomatch h.pure
  split at h
  · obtain ⟨a, hans, h⟩ := Answers.bind h
    cases a with
    | true =>
        cases h.pure
        obtain ⟨o, s, hr, hv, hs, ho⟩ := isDetachedReference_eq_true hans
        exact .detached hr hv ⟨hs, ho⟩
    | false => exact nomatch h.pure
  · exact nomatch h.pure

end

end ScriptScrub.Sanitizer
