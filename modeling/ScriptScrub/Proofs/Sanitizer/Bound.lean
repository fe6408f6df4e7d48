import ScriptScrub.Proofs.Sanitizer.Fresh
import ScriptScrub.Proofs.Sanitizer.Reference
import ScriptScrub.Proofs.Scope.Declared

/-!
# Bound names

A name is found to be bound exactly if a node above declares it in a form that collecting looks at
(`Scope.isBound_iff`), and nothing that is about a bound name is matched (`Matched.not_isBound`). A
declaration of another form is overlooked: what a `switch` declares in one case binds the name in
the others as well, but there a diagnostic call is removed.
-/

namespace ScriptScrub

namespace Scope

/-- The name at the place is in the scope of a declaration of the form. -/
def InScope (source : Bytes) (form : Form) (p : Place) : Prop :=
  ∃ a ∈ p.ancestors, Declares source form a (p.node.text source)

/-- **A name is found to be bound** exactly if it is in the scope of a declaration of a form that
collecting looks at. -/
theorem isBound_iff {source : Bytes} {p : Place} :
    isBound source p = true ↔ ∃ form : Form, form.isSeen = true ∧ InScope source form p := by
  rw [isBound, List.any_eq_true]
  simp only [List.contains_iff_mem, mem_declaredNames_iff]
  constructor
  · rintro ⟨a, ha, form, hseen, h⟩
    exact ⟨form, hseen, a, ha, h⟩
  · rintro ⟨form, hseen, a, ha, h⟩
    exact ⟨a, ha, form, hseen, h⟩

end Scope

namespace Sanitizer

open Config (SanitizerSettings)
open Scope (InScope)

section
variable {source : Bytes} {settings : SanitizerSettings} {root : Node}

/-- What is matched is about no object that is bound. -/
theorem Matched.not_isBound (hkeys : Scope.KeysTell source root) {q o : Place} {e : RuleEdit}
    {s : String} (h : Matched source settings root q e) (ha : IsAbout source settings q o s) :
    Scope.isBound source o = false := by
  have hfresh := ((matched_iff (visits_eq_fresh hkeys)).1 h).2.1
  have hanswers := answers_fresh source settings q
  rw [hfresh] at hanswers
  have hmay := (match?_eq_some hanswers).ok_of_isAbout ha
  exact hmay.2.pure.symm

/-- **Which local names are kept.** Whatever the index remembers of the tree, a name is found to be
bound exactly if it is in the scope of a declaration of a form that collecting looks at; and then
no match is that of a call, a bind or a reference whose object is this name. -/
theorem isBound_iff_seen (settings : SanitizerSettings) (hkeys : Scope.KeysTell source root)
    {index : Scope.Index} (hindex : index.Sound source root) {p : Place}
    (hp : p ∈ Place.all root) :
    (((Scope.Index.isBound source p).run index).1 = true ↔
      ∃ form : Scope.Form, form.isSeen = true ∧ InScope source form p) ∧
    ((∃ form : Scope.Form, form.isSeen = true ∧ InScope source form p) →
      ∀ q e, Matched source settings root q e → ∀ s, ¬ IsAbout source settings q p s) := by
  have hyields := (Scope.Index.yields_isBound hkeys hp) index hindex
  constructor
  · rw [hyields.1]
    exact Scope.isBound_iff
  · intro hform q e hmatched s habout
    have hbound := Scope.isBound_iff.2 hform
    rw [hmatched.not_isBound hkeys habout] at hbound
    cases hbound

end

/-- An arrow function with a parameter of the name of a diagnostic object. -/
def arrowSource : Bytes := Text.encode "let f = console => console.log(1);\n"

/-- The tree of `arrowSource`. -/
def arrowTree : Node where
  kind := "program"
  start := 0
  stop := 35
  children := [
    { kind := "lexical_declaration", start := 0, stop := 34, children := [
      { kind := "let", start := 0, stop := 3, named := false, field := some "kind" },
      { kind := "variable_declarator", start := 4, stop := 33, children := [
        { kind := "identifier", start := 4, stop := 5, field := some "name" },
        { kind := "=", start := 6, stop := 7, named := false },
        { kind := "arrow_function", start := 8, stop := 33, field := some "value", children := [
          { kind := "identifier", start := 8, stop := 15, field := some "parameter" },
          { kind := "=>", start := 16, stop := 18, named := false },
          { kind := "call_expression", start := 19, stop := 33, field := some "body", children := [
            { kind := "member_expression", start := 19, stop := 30, field := some "function",
              children := [
                { kind := "identifier", start := 19, stop := 26, field := some "object" },
                { kind := ".", start := 26, stop := 27, named := false },
                { kind := "property_identifier", start := 27, stop := 30,
                  field := some "property" }] },
            { kind := "arguments", start := 30, stop := 33, field := some "arguments" }] }] }] },
      { kind := ";", start := 33, stop := 34, named := false }] }]

/-- The parameter is found to be bound in the call, which is not matched. -/
theorem isBound_iff_seen_arrow :
    ((Scope.Index.isBound arrowSource (Place.follow ⟨arrowTree, []⟩ [0, 1, 2, 2, 0, 0])).run {}).1 =
        true ∧
      ∀ q e, Matched arrowSource {} arrowTree q e → ∀ s, ¬ IsAbout arrowSource {} q
        (Place.follow ⟨arrowTree, []⟩ [0, 1, 2, 2, 0, 0]) s := by
  have hkeys : Scope.KeysTell arrowSource arrowTree := by decide +kernel
  have hseen : ∃ form : Scope.Form, form.isSeen = true ∧
      InScope arrowSource form (Place.follow ⟨arrowTree, []⟩ [0, 1, 2, 2, 0, 0]) :=
    Scope.isBound_iff.1 (by decide +kernel)
  obtain ⟨hbound, hmatched⟩ := isBound_iff_seen {} hkeys Scope.Index.sound_empty
    (Place.follow_mem_preorder ⟨arrowTree, []⟩ [0, 1, 2, 2, 0, 0])
  exact ⟨hbound.2 hseen, hmatched hseen⟩

/-- A `switch` with a declaration in one case and a diagnostic call in the other. -/
def switchSource : Bytes :=
  Text.encode
    "switch (k) \x7b\n  case 0:\n    let console = f();\n  case 1:\n    console.log(1);\n\x7d\n"

/-- The name that the first case of `switchSource` declares. -/
def declaredName : Node where
  kind := "identifier"
  start := 31
  stop := 38
  field := some "name"

/-- The declaration in the first case of `switchSource`. -/
def declarator : Node where
  kind := "variable_declarator"
  start := 31
  stop := 44
  children := [declaredName,
    { kind := "=", start := 39, stop := 40, named := false },
    { kind := "call_expression", start := 41, stop := 44, field := some "value", children := [
      { kind := "identifier", start := 41, stop := 42, field := some "function" },
      { kind := "arguments", start := 42, stop := 44, field := some "arguments" }] }]

/-- The statement of the first case of `switchSource`. -/
def declaration : Node where
  kind := "lexical_declaration"
  start := 27
  stop := 45
  field := some "body"
  children := [
    { kind := "let", start := 27, stop := 30, named := false, field := some "kind" },
    declarator,
    { kind := ";", start := 44, stop := 45, named := false }]

/-- The first case of `switchSource`. -/
def declaringCase : Node where
  kind := "switch_case"
  start := 15
  stop := 45
  children := [
    { kind := "case", start := 15, stop := 19, named := false },
    { kind := "number", start := 20, stop := 21, field := some "value" },
    { kind := ":", start := 21, stop := 22, named := false },
    declaration]

/-- The second case of `switchSource`. -/
def callingCase : Node where
  kind := "switch_case"
  start := 48
  stop := 75
  children := [
    { kind := "case", start := 48, stop := 52, named := false },
    { kind := "number", start := 53, stop := 54, field := some "value" },
    { kind := ":", start := 54, stop := 55, named := false },
    { kind := "expression_statement", start := 60, stop := 75, field := some "body", children := [
      { kind := "call_expression", start := 60, stop := 74, children := [
        { kind := "member_expression", start := 60, stop := 71, field := some "function",
          children := [
            { kind := "identifier", start := 60, stop := 67, field := some "object" },
            { kind := ".", start := 67, stop := 68, named := false },
            { kind := "property_identifier", start := 68, stop := 71,
              field := some "property" }] },
        { kind := "arguments", start := 71, stop := 74, field := some "arguments" }] },
      { kind := ";", start := 74, stop := 75, named := false }] }]

/-- The body of the `switch`. -/
def switchBody : Node where
  kind := "switch_body"
  start := 11
  stop := 77
  field := some "body"
  children := [
    { kind := "\x7b", start := 11, stop := 12, named := false },
    declaringCase, callingCase,
    { kind := "\x7d", start := 76, stop := 77, named := false }]

/-- The tree of `switchSource`. -/
def switchTree : Node where
  kind := "program"
  start := 0
  stop := 78
  children := [
    { kind := "switch_statement", start := 0, stop := 77, children := [
      { kind := "switch", start := 0, stop := 6, named := false },
      { kind := "parenthesized_expression", start := 7, stop := 10, field := some "value",
        children := [{ kind := "identifier", start := 8, stop := 9 }] },
      switchBody] }]

/-- The place of the object of the diagnostic call in `switchSource`. -/
def calledObject : Place := Place.follow ⟨switchTree, []⟩ [0, 2, 2, 3, 0, 0, 0]

/-- **A declaration is overlooked**: the object of the call is in the scope of what the other case
of the `switch` declares, but it is not found to be bound, and the call is removed. -/
theorem switch_declaration_overlooked :
    InScope switchSource .switchStatement calledObject ∧
      ((Scope.Index.isBound switchSource calledObject).run {}).1 = false ∧
      editsOf switchSource {} switchTree = [⟨⟨60, 75, ""⟩, .removeDiagnosticCall⟩] ∧
      Edit.spliced? switchSource ((editsOf switchSource {} switchTree).map (·.toEdit)) =
        some (Text.encode
          "switch (k) \x7b\n  case 0:\n    let console = f();\n  case 1:\n\x7d\n") := by
  have hkeys : Scope.KeysTell switchSource switchTree := by decide +kernel
  have hedits : editsOf switchSource {} switchTree =
      [⟨⟨60, 75, ""⟩, .removeDiagnosticCall⟩] := by
    rw [editsOf_eq_fresh (by decide +kernel) hkeys]
    decide +kernel
  have htext : declaredName.text switchSource = calledObject.node.text switchSource := by
    decide +kernel
  have hbinds : Scope.Binds switchSource declaredName (calledObject.node.text switchSource) :=
    htext ▸ .name (.inl rfl)
  have hdeclares : Scope.DeclaresIn switchSource declaration
      (calledObject.node.text switchSource) :=
    .binding (.inl rfl) (List.mem_filter.2 ⟨List.mem_cons_of_mem _ List.mem_cons_self, rfl⟩) rfl
      rfl hbinds
  refine ⟨⟨switchBody, ?_, ?_⟩, ?_, hedits, ?_⟩
  · exact .tail _ (.tail _ (.tail _ (.tail _ (.head _))))
  · have hcase : declaringCase ∈ switchBody.namedChildren :=
      List.mem_filter.2 ⟨.tail _ (.head _), rfl⟩
    have hstatement : declaration ∈ declaringCase.namedChildren :=
      List.mem_filter.2 ⟨.tail _ (.tail _ (.tail _ (.head _))), rfl⟩
    exact .switchStatement rfl hcase (by decide) hstatement hdeclares
  · have hplace : calledObject ∈ Place.all switchTree := Place.follow_mem_preorder _ _
    rw [(Scope.Index.yields_isBound hkeys hplace {} Scope.Index.sound_empty).1]
    decide +kernel
  · rw [hedits]
    decide +kernel

end Sanitizer

end ScriptScrub
