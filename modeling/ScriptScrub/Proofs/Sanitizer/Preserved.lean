import ScriptScrub.Proofs.Edit.Image
import ScriptScrub.Proofs.Sanitizer.Reference
import ScriptScrub.Proofs.Sanitizer.Total

/-!
# Preserved calls

A call of a preserved severity survives (`Survives`): it is not matched, nor is the statement that
it makes up, nothing but comments goes inside its callee, and all of its bytes that lie outside the
edits below it come out again in their order (`Stays.comesOut`). What keeps it is that a call has
one severity (`IsAbout.unique`), whichever way it is read and whatever the index of names remembers.

That nothing in the callee is matched (`Match.rule_of_callee`) rests on the shape of the grammar
(`AccessesAreClosed`): an access holds its object, its member, and leaves besides.
-/

namespace ScriptScrub

/-! ## The shape of accesses -/

/-- No node of the tree is a statement, a call or an access. -/
def Node.Inert (n : Node) : Prop :=
  ∀ m ∈ n.preorder, m.kind ≠ "expression_statement" ∧ m.kind ≠ "call_expression" ∧
    m.kind ∉ Sanitizer.accessKinds

namespace Sanitizer

open Config (SanitizerSettings)

/-- An access holds its object, its member, and besides comments and tokens, in which nothing can
be matched but comments. The same holds of names and strings. -/
structure AccessesAreClosed (root : Node) : Prop where
  parts : ∀ a ∈ Place.all root, a.kind ∈ accessKinds → ∀ c ∈ a.children,
    c.fills "object" = true ∨ c.fills (memberField a.kind) = true ∨ c.node.Inert
  leaves : ∀ n ∈ root.preorder, n.kind ∈ ["identifier", "property_identifier", "string"] → n.Inert

instance (n : Node) : Decidable n.Inert :=
  inferInstanceAs (Decidable (∀ m ∈ n.preorder, m.kind ≠ "expression_statement" ∧
    m.kind ≠ "call_expression" ∧ m.kind ∉ accessKinds))

instance (root : Node) : Decidable (AccessesAreClosed root) :=
  decidable_of_iff ((∀ a ∈ Place.all root, a.kind ∈ accessKinds → ∀ c ∈ a.children,
      c.fills "object" = true ∨ c.fills (memberField a.kind) = true ∨ c.node.Inert) ∧
    ∀ n ∈ root.preorder, n.kind ∈ ["identifier", "property_identifier", "string"] → n.Inert)
    ⟨fun ⟨h₁, h₂⟩ => ⟨h₁, h₂⟩, fun ⟨h₁, h₂⟩ => ⟨h₁, h₂⟩⟩

/-! ## Matches in and around a preserved call -/

section
variable {source : Bytes} {settings : SanitizerSettings} {ok : Place → String → Prop}
variable {p q r o : Place} {s : String} {e : RuleEdit}

/-- A match at an access is that of a comment or of the reference that it is. -/
theorem Match.of_access (h : Match source settings ok p e) (hp : p.kind ∈ accessKinds) :
    e.rule = .stripComments ∨ ∃ o s, ok o s ∧ IsReference source settings p o s := by
  cases h with
  | comment => exact .inl rfl
  | statement hp' =>
      rw [hp'] at hp
      exact absurd hp (by decide)
  | call hc => exact absurd hp hc.not_access
  | bind hc => exact absurd hp hc.not_access
  | detached hr _ ho => exact .inr ⟨_, _, ho, hr⟩

/-- Matches inside an inert node are those of comments. -/
theorem Match.rule_of_inert (h : Match source settings ok q e) (hp : p.node.Inert)
    (hq : q ∈ p.preorder) : e.rule = .stripComments := by
  have hmem : q.node ∈ p.node.preorder := by
    rw [← Place.map_node_preorder]
    exact List.mem_map_of_mem hq
  obtain ⟨hstatement, hcall, haccess⟩ := hp q.node hmem
  rcases h.isAbout with ⟨-, hrule⟩ | ⟨o, s, -, hd | ⟨hq, -, -⟩⟩
  · exact hrule
  · rcases hd.kind with hk | hk
    · exact absurd hk hcall
    · exact absurd hk haccess
  · exact absurd hq hstatement

/-- The parts of an access are its object and inert nodes. -/
theorem eq_or_inert_of_mem_children {root : Node} {a c : Place} (hroot : AccessesAreClosed root)
    (ha : a ∈ Place.all root) (hacc : access? source a = some (o, s)) (hc : c ∈ a.children) :
    c = o ∨ c.node.Inert := by
  obtain ⟨hkind, hobject, m, hmember, hm⟩ := access?_eq_some hacc
  rcases hroot.parts a ha hkind c hc with h | h | h
  · rw [Place.child?_eq_some_of_fills hc h, Option.some.injEq] at hobject
    exact .inl hobject
  · rw [Place.child?_eq_some_of_fills hc h, Option.some.injEq] at hmember
    subst hmember
    have hmem : c ∈ Place.all root := Place.Below.mem_all (.child hc) ha
    exact .inr (hroot.leaves c.node (Place.node_mem_of_mem_all hmem) hm)
  · exact .inr h

/-- **Matches below a reference** are those of comments. -/
theorem Match.rule_below_reference {root : Node} (hroot : AccessesAreClosed root)
    (hr : IsReference source settings r o s) (hmem : r ∈ Place.all root) (hbelow : r.Below q)
    (h : Match source settings ok q e) : e.rule = .stripComments := by
  obtain ⟨c, hc, hqc⟩ := Place.below_iff_child.1 hbelow
  rw [← Place.mem_preorder_iff] at hqc
  rcases eq_or_inert_of_mem_children hroot hmem hr.access hc with rfl | hinert
  · have hc' : c ∈ Place.all root := Place.Below.mem_all (.child hc) hmem
    have hkind : c.node.kind ∈ ["identifier", "property_identifier", "string"] := by
      rw [show c.node.kind = "identifier" from hr.identifier]
      decide
    exact h.rule_of_inert (hroot.leaves c.node (Place.node_mem_of_mem_all hc') hkind) hqc
  · exact h.rule_of_inert hinert hqc

/-- **Matches inside a reference of a preserved severity** are those of comments. -/
theorem Match.rule_of_reference {root : Node} (hroot : AccessesAreClosed root)
    (hok : ∀ o s, ok o s → s ∉ settings.preservedSeverities)
    (hr : IsReference source settings r o s) (hs : s ∈ settings.preservedSeverities)
    (hmem : r ∈ Place.all root) (hq : q ∈ r.preorder) (h : Match source settings ok q e) :
    e.rule = .stripComments := by
  rcases Place.mem_preorder_iff.1 hq with rfl | hbelow
  · rcases h.of_access hr.kind with hrule | ⟨o', s', ho, hr'⟩
    · exact hrule
    · rw [(hr.unique hr').2] at hs
      exact absurd hs (hok _ _ ho)
  · exact h.rule_below_reference hroot hr hmem hbelow

/-- **Matches inside the callee of a preserved call** are those of comments. -/
theorem Match.rule_of_callee {root : Node} {c : Place} (hroot : AccessesAreClosed root)
    (hok : ∀ o s, ok o s → s ∉ settings.preservedSeverities) (hcall : Calls source p r)
    (hr : IsReference source settings r o s) (hs : s ∈ settings.preservedSeverities)
    (hmem : p ∈ Place.all root) (hc : p.child? "function" = some c) (hq : q ∈ c.preorder)
    (h : Match source settings ok q e) : e.rule = .stripComments := by
  have hcmem : c ∈ Place.all root := Place.Below.mem_all (.child (mem_children_of_child? hc)) hmem
  cases hcall with
  | direct _ hc' =>
      rw [hc, Option.some.injEq] at hc'
      subst hc'
      exact Match.rule_of_reference hroot hok hr hs hcmem hq h
  | forwarded hm hcall =>
      obtain ⟨d, hd, hacc⟩ := hcall.callee
      rw [hc, Option.some.injEq] at hd
      subst hd
      rcases Place.mem_preorder_iff.1 hq with rfl | hbelow
      · rcases h.of_access (access?_eq_some hacc).1 with hrule | ⟨o', s', -, hr'⟩
        · exact hrule
        · exact absurd hr' (hcall.not_direct hr hc)
      · obtain ⟨b, hb, hqb⟩ := Place.below_iff_child.1 hbelow
        rw [← Place.mem_preorder_iff] at hqb
        rcases eq_or_inert_of_mem_children hroot hcmem hacc hb with rfl | hinert
        · have hbmem : b ∈ Place.all root := Place.Below.mem_all (.child hb) hcmem
          exact Match.rule_of_reference hroot hok hr hs hbmem hqb h
        · exact h.rule_of_inert hinert hqb

end

/-! ## Survival -/

section
variable (source : Bytes) (settings : SanitizerSettings) (root : Node)

/-- The node at a place comes out: between what the edits make of the source before and behind it,
the output holds what they make of the node, and in it all bytes that no edit below the node covers,
in their order and apart from white space. -/
def ComesOut (p : Place) : Prop :=
  ∃ before nested after head image tail,
    (editsOf source settings root).map (·.toEdit) = before ++ nested ++ after ∧
    (∀ e, e ∈ nested ↔ ∃ q d, p.Below q ∧ Matched source settings root q d ∧ d.toEdit = e) ∧
    Edit.spliced? source (before ++ nested ++ after) = some (head ++ image ++ tail) ∧
    Edit.IsImage source 0 p.node.start before head ∧
    Edit.IsImage source p.node.start p.node.stop nested image ∧
    Edit.IsImage source p.node.stop source.length after tail ∧
    (Edit.solid (Edit.kept source p.node.start p.node.stop nested)).Sublist image

/-- The call at a place survives sanitizing. -/
structure Survives (p : Place) : Prop where
  /-- It asks for no edit, whatever the index remembers. -/
  call : ∀ e, ¬ Answers (match? source settings (Scope.Index.isBound source) p) (some e)
  /-- Nor does the statement that consists of it. -/
  statement : ∀ q e, q.kind = "expression_statement" → statementExpression? q = some p →
    ¬ Answers (match? source settings (Scope.Index.isBound source) q) (some e)
  /-- The edits that meet its callee are those of comments. -/
  callee : ∀ c, p.child? "function" = some c → ∀ e ∈ editsOf source settings root,
    e.start < c.node.stop → c.node.start < e.stop → e.rule = .stripComments
  /-- It comes out. -/
  image : ComesOut source settings root p

variable {source settings root}

/-- **A place that stays comes out**: the edits fall into those before it, those below it and those
behind it, and so does the output. -/
theorem Stays.comesOut {p : Place} (h : Stays source settings root p) (hroot : root.WellNested)
    (hin : root.stop ≤ source.length) (hapart : MatchesApart source settings root) :
    ComesOut source settings root p := by
  obtain ⟨before, nested, after, hsplit, hmem, hpair, hbefore, hnested, hafter⟩ := h.split hroot
  obtain ⟨horder, hstop⟩ := Place.range_of_mem_all hroot h.mem
  have hend : p.node.stop ≤ source.length := Nat.le_trans hstop hin
  obtain ⟨output, hout, hrun⟩ := exists_spliced_editsOf hroot hin hapart
  have hedits : (editsOf source settings root).map (·.toEdit) =
      before.map (·.toEdit) ++ nested.map (·.toEdit) ++ after.map (·.toEdit) := by
    rw [hsplit, List.map_append, List.map_append]
  have hnested' : ∀ e ∈ nested.map (·.toEdit),
      p.node.start ≤ e.start ∧ e.start ≤ e.stop ∧ e.stop ≤ p.node.stop :=
    List.forall_mem_map.2 hnested
  rw [hedits] at hout hrun
  obtain ⟨head, image, tail, rfl, hhead, himage, htail⟩ := hrun.image horder hend
    (List.forall_mem_map.2 hbefore) hnested' (List.forall_mem_map.2 hafter)
  refine ⟨_, _, _, head, image, tail, hedits, fun e => ?_, hout, hhead, himage, htail, ?_⟩
  · rw [List.mem_map]
    constructor
    · rintro ⟨d, hd, rfl⟩
      obtain ⟨q, hpq, hd⟩ := (hmem d).1 hd
      exact ⟨q, d, hpq, hd, rfl⟩
    · rintro ⟨q, d, hpq, hd, rfl⟩
      exact ⟨d, (hmem d).2 ⟨q, hpq, hd⟩, rfl⟩
  · exact Edit.solid_kept_sublist himage horder hend (List.pairwise_map.2 hpair) hnested'

/-- **A call of a preserved severity survives**, be it direct or forwarded, unless it lies below a
matched node. -/
theorem preserved_call_survives (hroot : root.WellNested) (hin : root.stop ≤ source.length)
    (hclosed : AccessesAreClosed root) (hapart : MatchesApart source settings root) {p : Place}
    (hp : p ∈ Place.all root) (severity : String)
    (hcall : Answers (callSeverity source settings (Scope.Index.isBound source) p) (some severity))
    (hsev : severity ∈ settings.preservedSeverities)
    (habove : ∀ a e, a.Below p → ¬ Matched source settings root a e) :
    Survives source settings root p := by
  obtain ⟨r, o, hcalls, href, -⟩ := callSeverity_eq_some hcall
  have hok : ∀ o s, MayGo settings (Scope.Index.isBound source) o s →
      s ∉ settings.preservedSeverities := fun _ _ h => h.1
  have habout : IsAbout source settings p o severity := .expression (.call hcalls href)
  have hunmatched : ∀ e, ¬ Matched source settings root p e := fun e h =>
    hok _ _ (h.match.ok_of_isAbout habout) hsev
  have hstays : Stays source settings root p := ⟨hp, hunmatched, habove⟩
  refine ⟨?_, ?_, ?_, hstays.comesOut hroot hin hapart⟩
  · intro e h
    exact hok _ _ ((match?_eq_some h).ok_of_isAbout habout) hsev
  · intro q e hq hx h
    have habout' : IsAbout source settings q o severity := .statement hq hx (.call hcalls href)
    exact hok _ _ ((match?_eq_some h).ok_of_isAbout habout') hsev
  · intro c hc e he hstart hstop
    obtain ⟨q, hq⟩ := mem_editsOf_iff.1 he
    obtain ⟨heq, heq'⟩ := hq.match.range
    have hpc : p.Below c := .child (mem_children_of_child? hc)
    have inside : q ∈ c.preorder → e.rule = .stripComments := fun hqc =>
      Match.rule_of_callee hclosed hok hcalls href hsev hp hc hqc hq.match
    rcases Place.below_or_apart (r := ⟨root, []⟩) hroot (hpc.mem_all hp) hq.mem_all with
      rfl | hbelow | habovec | hapart | hapart
    · exact inside (Place.mem_preorder_iff.2 (.inl rfl))
    · exact inside (Place.mem_preorder_iff.2 (.inr hbelow))
    · rcases (Place.below_iff_parent (mem_children_of_child? hc)).1 habovec with rfl | hqp
      · exact absurd hq (hunmatched e)
      · exact absurd hq (habove q e hqp)
    · omega
    · omega

end

/-- A call of a preserved severity with a comment and a call that is not preserved in it. -/
def errorSource : Bytes := Text.encode "console.error(/* x */ console.log(1));\n"

/-- The call in the tree of `errorSource`. -/
def errorCall : Node where
  kind := "call_expression"
  start := 0
  stop := 37
  children := [
    { kind := "member_expression", start := 0, stop := 13, field := some "function", children := [
      { kind := "identifier", start := 0, stop := 7, field := some "object" },
      { kind := ".", start := 7, stop := 8, named := false },
      { kind := "property_identifier", start := 8, stop := 13, field := some "property" }] },
    { kind := "arguments", start := 13, stop := 37, field := some "arguments", children := [
      { kind := "comment", start := 14, stop := 21 },
      { kind := "call_expression", start := 22, stop := 36, children := [
        { kind := "member_expression", start := 22, stop := 33, field := some "function",
          children := [
            { kind := "identifier", start := 22, stop := 29, field := some "object" },
            { kind := ".", start := 29, stop := 30, named := false },
            { kind := "property_identifier", start := 30, stop := 33,
              field := some "property" }] },
        { kind := "arguments", start := 33, stop := 36, field := some "arguments" }] }] }]

/-- The tree of `errorSource`. -/
def errorProgram : Node where
  kind := "program"
  start := 0
  stop := 39
  children := [{ kind := "expression_statement", start := 0, stop := 38, children := [errorCall] }]

/-- The place of the statement in the program. -/
def errorStatement : Place := Place.down ⟨errorProgram, []⟩ 0
  { kind := "expression_statement", start := 0, stop := 38, children := [errorCall] }

/-- A preserved call survives, and a comment and a call that is not preserved go around it. -/
theorem preserved_call_survives_error :
    Survives errorSource {} errorProgram (errorStatement.down 0 errorCall) := by
  have hnested : errorProgram.WellNested := by decide +kernel
  have hkeys : Scope.KeysTell errorSource errorProgram := by decide +kernel
  have hstatement : errorStatement ∈ (⟨errorProgram, []⟩ : Place).children :=
    Place.mem_children_iff.2 ⟨0, _, rfl, rfl⟩
  have hcall : errorStatement.down 0 errorCall ∈ errorStatement.children :=
    Place.mem_children_iff.2 ⟨0, _, rfl, rfl⟩
  have hprogram : Stays errorSource {} errorProgram ⟨errorProgram, []⟩ :=
    stays_root (not_matched_of_fresh hkeys (by decide +kernel))
  have hstays : Stays errorSource {} errorProgram (errorStatement.down 0 errorCall) :=
    (hprogram.child hstatement (not_matched_of_fresh hkeys (by decide +kernel))).child hcall
      (not_matched_of_fresh hkeys (by decide +kernel))
  have hfresh : freshSeverity errorSource {} (errorStatement.down 0 errorCall) = some "error" := by
    decide +kernel
  refine preserved_call_survives hnested (by decide +kernel) ⟨by decide +kernel, by decide +kernel⟩
    ?_ hstays.mem "error" (hfresh ▸ answers_freshSeverity hkeys hstays.mem) (by decide) hstays.above
  rw [MatchesApart, editsOf_eq_fresh hnested hkeys]
  decide +kernel

end Sanitizer

end ScriptScrub
