import ScriptScrub.Proofs.Edit.Image
import ScriptScrub.Proofs.Sanitizer.Total

/-!
# What stands between statements

A statement that is removed takes its own semicolon along, and nothing is put in its place. So a
semicolon stands between two statements that stay exactly if one stood between them outside all
edits (`exists_between`, `semicolon_not_mem_replacement`). Where a line break ended the statement
before the removed one, there is none, and if the statement behind begins like the rest of an
expression, the two are read as one: `a`, a removed call and `(b)` become the call `a(b)`.
-/

namespace ScriptScrub.Sanitizer

open Config (SanitizerSettings)

/-- The byte of a semicolon. -/
def semicolon : UInt8 := 0x3B

section
variable {source : Bytes} {settings : SanitizerSettings} {root : Node}

/-- What takes the place of a match is one of four texts. -/
theorem Match.replacement {ok : Place → String → Prop} {p : Place} {e : RuleEdit}
    (h : Match source settings ok p e) :
    e.replacement ∈ ["", emptyBlock, voidExpression, emptyFunction] := by
  cases h with
  | comment => exact List.mem_cons_self
  | statement =>
      rw [diagnosticEdit]
      split
      · exact List.mem_cons_self
      · exact List.mem_cons_of_mem _ List.mem_cons_self
  | call | bind | detached => simp [diagnosticEdit]

/-- What an edit of a tree puts in is one of four texts. -/
theorem replacement_mem {e : Edit} (he : e ∈ (editsOf source settings root).map (·.toEdit)) :
    e.replacement ∈ ["", emptyBlock, voidExpression, emptyFunction] := by
  obtain ⟨d, hd, rfl⟩ := List.mem_map.1 he
  obtain ⟨p, hp⟩ := mem_editsOf_iff.1 hd
  exact hp.match.replacement

/-- No replacement holds a semicolon. -/
theorem semicolon_not_mem_replacement {e : Edit}
    (he : e ∈ (editsOf source settings root).map (·.toEdit)) :
    semicolon ∉ Text.encode e.replacement := by
  have texts : ∀ text ∈ ["", emptyBlock, voidExpression, emptyFunction],
      semicolon ∉ Text.encode text := by decide +kernel
  exact texts _ (replacement_mem he)

/-- **Between two places that stay** the edits fall into those before the end of the first, those
between, and those behind the start of the second. -/
theorem exists_between (hroot : root.WellNested) (hin : root.stop ≤ source.length) {p q : Place}
    (hp : Stays source settings root p) (hq : Stays source settings root q)
    (hpq : p.node.stop ≤ q.node.start) :
    ∃ before between after,
      (editsOf source settings root).map (·.toEdit) = before ++ between ++ after ∧
      (∀ e ∈ before, e.stop ≤ p.node.stop) ∧
      (∀ e ∈ between, p.node.stop ≤ e.start ∧ e.start ≤ e.stop ∧ e.stop ≤ q.node.start) ∧
      ∀ e ∈ after, q.node.start ≤ e.start := by
  have hpair := pairwise_editsOf source settings hroot
  have hsides : ∀ e ∈ (editsOf source settings root).map (·.toEdit), e.start ≤ e.stop ∧
      (e.stop ≤ p.node.stop ∨ p.node.stop ≤ e.start) ∧
      (e.stop ≤ q.node.start ∨ q.node.start ≤ e.start) := by
    intro e he
    obtain ⟨d, hd, rfl⟩ := List.mem_map.1 he
    have horder := (fits_of_mem_editsOf hroot hin hd).ordered
    have hnp := (Place.range_of_mem_all hroot hp.mem).1
    have hnq := (Place.range_of_mem_all hroot hq.mem).1
    have hrp := hp.range hroot hd
    have hrq := hq.range hroot hd
    omega
  exact Edit.exists_split_between hpair hsides

/-- **A semicolon stands between two places that stay** exactly if one stands between them in the
source outside all edits. -/
theorem semicolon_between_iff (hroot : root.WellNested) (hin : root.stop ≤ source.length)
    (hapart : MatchesApart source settings root) {p q : Place}
    (hp : Stays source settings root p) (hq : Stays source settings root q)
    (hpq : p.node.stop ≤ q.node.start) :
    ∃ before between after head gap tail,
      (editsOf source settings root).map (·.toEdit) = before ++ between ++ after ∧
      Edit.spliced? source (before ++ between ++ after) = some (head ++ gap ++ tail) ∧
      Edit.IsImage source 0 p.node.stop before head ∧
      Edit.IsImage source p.node.stop q.node.start between gap ∧
      Edit.IsImage source q.node.start source.length after tail ∧
      (semicolon ∈ gap ↔
        ∃ i, p.node.stop ≤ i ∧ i < q.node.start ∧ source[i]? = some semicolon ∧
          Edit.uncovered ((editsOf source settings root).map (·.toEdit)) i = true) := by
  obtain ⟨before, between, after, hedits, hbefore, hbetween, hafter⟩ :=
    exists_between hroot hin hp hq hpq
  have hend : q.node.start ≤ source.length := by
    have := Place.range_of_mem_all hroot hq.mem
    omega
  have hpair := pairwise_editsOf source settings hroot
  obtain ⟨output, hout, hrun⟩ := exists_spliced_editsOf hroot hin hapart
  rw [hedits] at hout hrun hpair
  obtain ⟨head, gap, tail, rfl, hhead, hgap, htail⟩ :=
    hrun.image hpq hend hbefore hbetween hafter
  refine ⟨before, between, after, head, gap, tail, hedits, hout, hhead, hgap, htail, ?_⟩
  have hpair' := (List.pairwise_append.1 (List.pairwise_append.1 hpair).1).2.1
  have hnone : ¬ ∃ e ∈ between, semicolon ∈ Text.encode e.replacement := by
    rintro ⟨e, he, hmem⟩
    have he' : e ∈ before ++ between ++ after :=
      List.mem_append.2 (.inl (List.mem_append.2 (.inr he)))
    rw [← hedits] at he'
    exact semicolon_not_mem_replacement he' hmem
  rw [hgap.mem_iff rfl, Edit.mem_plain_iff hpair' hbetween, or_iff_left hnone, hedits]
  refine exists_congr fun i => ?_
  constructor
  · rintro ⟨hlo, hhi, hb, hun⟩
    exact ⟨hlo, hhi, hb, (Edit.uncovered_append_append hbefore hafter hlo hhi).trans hun⟩
  · rintro ⟨hlo, hhi, hb, hun⟩
    exact ⟨hlo, hhi, hb, (Edit.uncovered_append_append hbefore hafter hlo hhi).symm.trans hun⟩

end

/-! ## Two statements that join -/

/-- A statement, a diagnostic call, and a statement that begins with a bracket, a line each. -/
def threeLines : Bytes := Text.encode "a\nconsole.log(1);\n(b)\n"

/-- The first statement of `threeLines`. -/
def firstLine : Node where
  kind := "expression_statement"
  start := 0
  stop := 1
  children := [{ kind := "identifier", start := 0, stop := 1 }]

/-- The diagnostic call of `threeLines`. -/
def secondLine : Node where
  kind := "expression_statement"
  start := 2
  stop := 17
  children := [
    { kind := "call_expression", start := 2, stop := 16, children := [
      { kind := "member_expression", start := 2, stop := 13, field := some "function", children := [
        { kind := "identifier", start := 2, stop := 9, field := some "object" },
        { kind := ".", start := 9, stop := 10, named := false },
        { kind := "property_identifier", start := 10, stop := 13, field := some "property" }] },
      { kind := "arguments", start := 13, stop := 16, field := some "arguments" }] },
    { kind := ";", start := 16, stop := 17, named := false }]

/-- The last statement of `threeLines`. -/
def thirdLine : Node where
  kind := "expression_statement"
  start := 18
  stop := 21
  children := [
    { kind := "parenthesized_expression", start := 18, stop := 21, children := [
      { kind := "identifier", start := 19, stop := 20 }] }]

/-- The tree of `threeLines`. -/
def threeStatements : Node where
  kind := "program"
  start := 0
  stop := 22
  children := [firstLine, secondLine, thirdLine]

/-- Keys tell the nodes of the three statements apart. -/
theorem keysTell_threeStatements : Scope.KeysTell threeLines threeStatements := by decide +kernel

/-- A statement that asks for no edit stays. -/
theorem stays_of_fresh {i : Nat} {n : Node} (hi : threeStatements.children[i]? = some n)
    (h : fresh threeLines {} (Place.down ⟨threeStatements, []⟩ i n) = none) :
    Stays threeLines {} threeStatements (Place.down ⟨threeStatements, []⟩ i n) := by
  have hroot : Stays threeLines {} threeStatements ⟨threeStatements, []⟩ :=
    stays_root (not_matched_of_fresh keysTell_threeStatements (by decide +kernel))
  exact hroot.child (Place.mem_children_iff.2 ⟨i, n, hi, rfl⟩)
    (not_matched_of_fresh keysTell_threeStatements h)

/-- Between the first and the last statement no semicolon stands outside the edits, so none stands
between them in the output. -/
theorem semicolon_between_iff_threeLines :
    ∃ before between after head gap tail,
      (editsOf threeLines {} threeStatements).map (·.toEdit) = before ++ between ++ after ∧
      Edit.spliced? threeLines (before ++ between ++ after) = some (head ++ gap ++ tail) ∧
      Edit.IsImage threeLines 0 1 before head ∧ Edit.IsImage threeLines 1 18 between gap ∧
      Edit.IsImage threeLines 18 threeLines.length after tail ∧
      (semicolon ∈ gap ↔ ∃ i, 1 ≤ i ∧ i < 18 ∧ threeLines[i]? = some semicolon ∧
        Edit.uncovered ((editsOf threeLines {} threeStatements).map (·.toEdit)) i = true) := by
  have hnested : threeStatements.WellNested := by decide +kernel
  have hfirst : Stays threeLines {} threeStatements
      (Place.down ⟨threeStatements, []⟩ 0 firstLine) := stays_of_fresh rfl (by decide +kernel)
  have hthird : Stays threeLines {} threeStatements
      (Place.down ⟨threeStatements, []⟩ 2 thirdLine) := stays_of_fresh rfl (by decide +kernel)
  refine semicolon_between_iff hnested (by decide +kernel) ?_ hfirst hthird (by decide)
  rw [MatchesApart, editsOf_eq_fresh hnested keysTell_threeStatements]
  decide +kernel

/-- **Two statements join**: the first and the last stay, the one between them is all that is
removed, the first ends in `a` and the last begins with a bracket, but the output holds no
semicolon. -/
theorem statements_join :
    Stays threeLines {} threeStatements (Place.down ⟨threeStatements, []⟩ 0 firstLine) ∧
      Stays threeLines {} threeStatements (Place.down ⟨threeStatements, []⟩ 2 thirdLine) ∧
      editsOf threeLines {} threeStatements =
        [⟨⟨secondLine.start, secondLine.stop, ""⟩, .removeDiagnosticCall⟩] ∧
      firstLine.text threeLines = "a" ∧ thirdLine.text threeLines = "(b)" ∧
      Edit.spliced? threeLines ((editsOf threeLines {} threeStatements).map (·.toEdit)) =
        some (Text.encode "a\n(b)\n") ∧
      semicolon ∉ Text.encode "a\n(b)\n" := by
  have hedits : editsOf threeLines {} threeStatements =
      [⟨⟨secondLine.start, secondLine.stop, ""⟩, .removeDiagnosticCall⟩] := by
    rw [editsOf_eq_fresh (by decide +kernel) keysTell_threeStatements]
    decide +kernel
  refine ⟨stays_of_fresh rfl (by decide +kernel), stays_of_fresh rfl (by decide +kernel), hedits,
    by decide +kernel, by decide +kernel, ?_, by decide +kernel⟩
  rw [hedits]
  decide +kernel

end ScriptScrub.Sanitizer
