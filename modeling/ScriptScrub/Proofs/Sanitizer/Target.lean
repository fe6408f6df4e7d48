import ScriptScrub.Proofs.Sanitizer.Operand
import ScriptScrub.Proofs.Sanitizer.Preserved

/-!
# References that are written to

A reference is written to if it is what an assignment, a loop or an update writes to, or a part of a
pattern that is (`IsWritten`). Of these matching spares the direct target of an assignment alone:
every other one is taken for a value (`IsWritten.isValuePosition_iff`) and becomes an empty function
if its severity is not preserved and its object is not bound (`written_reference_edit_iff`). A
reference that asks for no edit is left alone (`LeftAlone`): nothing but comments goes inside it,
and it comes out. In a pattern a reference is replaced, and then the script is none any more; in an
update it is replaced, and the script passes for one (`written_reference_replaced`).
-/

namespace ScriptScrub.Sanitizer

open Config (SanitizerSettings)

/-- The node is written to, and not read. -/
inductive IsWritten : Place → Prop where
  /-- The left side of an assignment. -/
  | assigned {q p : Place} (hq : q.kind ∈ assignmentKinds) (hp : q.child? "left" = some p) :
      IsWritten p
  /-- The left side of a loop over the members of a value. -/
  | looped {q p : Place} (hq : q.kind = "for_in_statement") (hp : q.child? "left" = some p) :
      IsWritten p
  /-- The operand of an increment or a decrement. -/
  | updated {q p : Place} (hq : q.kind = "update_expression") (hp : p ∈ q.namedChildren) :
      IsWritten p
  /-- An element of a list, a member of an object, or the rest. -/
  | part {q p : Place} (h : IsWritten q) (hq : q.kind ∈ Scope.compoundPatternKinds)
      (hp : p ∈ q.namedChildren) : IsWritten p
  /-- What a key is bound to, and what has a default. -/
  | field {q p : Place} {field : String} (h : IsWritten q)
      (hq : Scope.boundField? q.kind = some field) (hp : q.child? field = some p) : IsWritten p

/-- A child that has a name is a child. -/
theorem mem_children_of_mem_namedChildren {q p : Place} (hp : p ∈ q.namedChildren) :
    p ∈ q.children :=
  List.mem_of_mem_filter hp

/-- What is below a node that is neither an access nor an assignment is used as a value. -/
theorem isValuePosition_of_mem_children {q p : Place} (hp : p ∈ q.children)
    (haccess : q.kind ∉ accessKinds) (hassign : q.kind ∉ assignmentKinds) :
    isValuePosition p = true :=
  (isValuePosition_iff hp).2 ⟨fun h => haccess h.1, fun h => hassign h.1⟩

/-- **What is written to** is taken for a value unless it is the target of an assignment. -/
theorem IsWritten.isValuePosition_iff {p : Place} (h : IsWritten p) :
    isValuePosition p = true ↔ ¬ IsTarget p := by
  refine ⟨not_isTarget_of_isValuePosition, fun htarget => ?_⟩
  cases h with
  | assigned hq hp => exact absurd ⟨_, hq, hp⟩ htarget
  | looped hq hp =>
      refine isValuePosition_of_mem_children (mem_children_of_child? hp) ?_ ?_ <;> rw [hq] <;>
        decide
  | updated hq hp =>
      refine isValuePosition_of_mem_children (mem_children_of_mem_namedChildren hp) ?_ ?_ <;>
        rw [hq] <;> decide
  | part _ hq hp =>
      have hkinds : ∀ k ∈ Scope.compoundPatternKinds, k ∉ accessKinds ∧ k ∉ assignmentKinds := by
        decide
      exact isValuePosition_of_mem_children (mem_children_of_mem_namedChildren hp) (hkinds _ hq).1
        (hkinds _ hq).2
  | field _ hq hp =>
      have hkinds : ∀ k ∈ accessKinds ++ assignmentKinds, Scope.boundField? k = none := by decide
      have hkind : ∀ {kinds}, kinds ⊆ accessKinds ++ assignmentKinds → _ ∉ kinds :=
        fun hsub hk => nomatch hq.symm.trans (hkinds _ (hsub hk))
      exact isValuePosition_of_mem_children (mem_children_of_child? hp)
        (hkind (List.subset_append_left _ _)) (hkind (List.subset_append_right _ _))

/-! ## What such a reference asks for -/

section
variable {source : Bytes} {settings : SanitizerSettings} {p o : Place} {s : String}

variable {m : Type → Type} [Monad m] [LawfulMonad m] {bound : Place → m Bool}

/-- A reference may be removed if its object is not bound and its severity not preserved. -/
theorem isRemovableReference_of_isReference (h : IsReference source settings p o s) :
    isRemovableReference source settings bound p =
      (fun b => !b && !settings.preservedSeverities.contains s) <$> bound o := by
  have hobject : (o.kind == "identifier" &&
      settings.diagnosticObjects.contains (o.node.text source)) = true := by
    rw [h.identifier, List.contains_iff_mem.2 h.diagnostic]
    rfl
  rw [isRemovableReference, referenceSeverity, h.access]
  dsimp only
  rw [if_pos hobject, map_bind, ← bind_pure_comp]
  refine bind_congr fun b => ?_
  cases b <;> simp [isRemovableSeverity]

/-- **A reference asks for an edit** if the rule is on, its object is not bound, its severity is not
preserved, and it is used as a value. -/
theorem match?_of_isReference (h : IsReference source settings p o s) :
    match? source settings bound p =
      if .removeDiagnosticCall ∈ settings.rules then
        (fun b => if b = false ∧ s ∉ settings.preservedSeverities ∧ isValuePosition p = true then
          some (diagnosticEdit p.node emptyFunction) else none) <$> bound o
      else pure none := by
  have hkinds : ∀ k ∈ accessKinds, commentKinds.contains k = false ∧
      k ≠ "expression_statement" ∧ k ≠ "call_expression" := by decide
  obtain ⟨hcomment, hstatement, hcall⟩ := hkinds _ h.kind
  rw [match?, isComment, if_neg (Bool.eq_false_iff.1 hcomment), if_neg hstatement, if_neg hcall,
    if_pos (List.contains_iff_mem.2 h.kind), isDetachedReference,
    isRemovableReference_of_isReference h]
  by_cases hrule : Rule.removeDiagnosticCall ∈ settings.rules
  · rw [if_neg (by simp [hrule]), if_pos hrule, bind_map_left, ← bind_pure_comp, bind_assoc]
    refine bind_congr fun b => ?_
    cases b with
    | true => simp
    | false =>
        by_cases hs : s ∈ settings.preservedSeverities <;> cases isValuePosition p <;> simp [hs]
  · rw [if_pos (by simp [hrule]), if_neg hrule]

/-- A reference that is written to asks for an edit if it may be removed and is not the target of an
assignment. -/
theorem matchGiven_of_isWritten {bound : Place → Bool} (h : IsReference source settings p o s)
    (hw : IsWritten p) {e : RuleEdit} :
    matchGiven source settings bound p = some e ↔
      e = diagnosticEdit p.node emptyFunction ∧ ¬ IsTarget p ∧
        .removeDiagnosticCall ∈ settings.rules ∧ s ∉ settings.preservedSeverities ∧
          bound o = false := by
  rw [matchGiven, match?_of_isReference h, ← hw.isValuePosition_iff]
  by_cases hrule : Rule.removeDiagnosticCall ∈ settings.rules
  · rw [if_pos hrule]
    change (if bound o = false ∧ s ∉ settings.preservedSeverities ∧ isValuePosition p = true then
      some (diagnosticEdit p.node emptyFunction) else none) = some e ↔ _
    simp only [Option.ite_none_right_eq_some, Option.some.injEq]
    tauto
  · rw [if_neg hrule]
    refine iff_of_false (Option.some_ne_none e).symm ?_
    rintro ⟨-, -, h, -⟩
    exact hrule h

/-! ## References that are left alone -/

variable (source settings) in
/-- The reference at a place of the tree is left alone. -/
structure LeftAlone (root : Node) (p : Place) : Prop where
  unmatched : ∀ e, ¬ Matched source settings root p e
  /-- The edits that meet it are those of comments. -/
  comments : ∀ e ∈ editsOf source settings root,
    e.start < p.node.stop → p.node.start < e.stop → e.rule = .stripComments
  /-- It comes out. -/
  image : ComesOut source settings root p

variable {root : Node}

/-- **A reference that stays** is left alone. -/
theorem Stays.leftAlone (h : Stays source settings root p)
    (href : IsReference source settings p o s)
    (hroot : root.WellNested) (hin : root.stop ≤ source.length) (hclosed : AccessesAreClosed root)
    (hapart : MatchesApart source settings root) : LeftAlone source settings root p where
  unmatched := h.self
  comments := by
    intro e he hstart hstop
    obtain ⟨q, hq⟩ := mem_editsOf_iff.1 he
    obtain ⟨heq, heq'⟩ := hq.match.range
    rcases Place.below_or_apart (r := ⟨root, []⟩) hroot h.mem hq.mem_all with
      rfl | hbelow | habove | hbefore | hbehind
    · exact absurd hq (h.self e)
    · exact hq.match.rule_below_reference hclosed href h.mem hbelow
    · exact absurd hq (h.above q e habove)
    · omega
    · omega
  image := h.comesOut hroot hin hapart

/-- **References that are written to.** Whatever the index remembers, such a reference asks for an
edit, which makes it an empty function, exactly if it may be removed and is not the target of an
assignment. So where nothing above it is matched, it is left alone exactly if it is the target of an
assignment, or of a preserved severity, or of a name that is bound, or if the rule is off. -/
theorem written_reference_edit_iff (href : IsReference source settings p o s) (hw : IsWritten p) :
    (∀ index e,
      ((match? source settings (Scope.Index.isBound source) p).run index).1 = some e ↔
        e = diagnosticEdit p.node emptyFunction ∧ ¬ IsTarget p ∧
          .removeDiagnosticCall ∈ settings.rules ∧ s ∉ settings.preservedSeverities ∧
            boundBy source index o = false) ∧
    ∀ root : Node, root.WellNested → root.stop ≤ source.length → AccessesAreClosed root →
      MatchesApart source settings root → p ∈ Place.all root →
      (∀ a e, a.Below p → ¬ Matched source settings root a e) →
      ∃ after, Collects source settings root {} (editsOf source settings root) after ∧
        (LeftAlone source settings root p ↔
          IsTarget p ∨ .removeDiagnosticCall ∉ settings.rules ∨ s ∈ settings.preservedSeverities ∨
            boundBy source after o = true) := by
  constructor
  · intro index e
    rw [← matchGiven_of_isWritten href hw, matchGiven, match?_of_isReference href,
      match?_of_isReference href]
    split <;> rfl
  · intro root hroot hin hclosed hapart hp habove
    obtain ⟨after, hafter⟩ := exists_collects source settings hroot
    have hmatched : ∀ e, Matched source settings root p e ↔
        e = diagnosticEdit p.node emptyFunction ∧ ¬ IsTarget p ∧
          .removeDiagnosticCall ∈ settings.rules ∧ s ∉ settings.preservedSeverities ∧
            boundBy source after o = false := by
      intro e
      rw [matched_iff hafter.visits_eq, ← matchGiven_of_isWritten href hw]
      refine ⟨fun h => h.2.1, fun h => ⟨hp, h, fun r hr hrp => ?_⟩⟩
      exact answer_eq_none_of_below hafter.visits_eq habove hr hrp
    refine ⟨after, hafter, fun h => ?_, fun h => ?_⟩
    · by_contra hnot
      simp only [not_or, not_not, Bool.not_eq_true] at hnot
      exact h.unmatched _ ((hmatched _).2 ⟨rfl, hnot⟩)
    · refine Stays.leftAlone ⟨hp, fun e he => ?_, habove⟩ href hroot hin hclosed hapart
      obtain ⟨-, htarget, hrule, hs, ho⟩ := (hmatched e).1 he
      simp [htarget, hrule, hs, ho] at h

end

/-! ## Scripts -/

/-- The access names the member of a diagnostic object. -/
def NamesMember (source : Bytes) (settings : SanitizerSettings) (p : Place) (severity : String) :
    Prop :=
  ((access? source p).any fun a => a.1.kind = "identifier" ∧
    a.1.node.text source ∈ settings.diagnosticObjects ∧ a.2 = severity) = true

instance (source : Bytes) (settings : SanitizerSettings) (p : Place) (severity : String) :
    Decidable (NamesMember source settings p severity) :=
  inferInstanceAs (Decidable (_ = true))

/-- An access that names the member of a diagnostic object is a reference. -/
theorem NamesMember.exists_isReference {source : Bytes} {settings : SanitizerSettings} {p : Place}
    {s : String} (h : NamesMember source settings p s) :
    ∃ o, IsReference source settings p o s := by
  obtain ⟨⟨o, t⟩, haccess, h⟩ := (Option.any_eq_true _ _).1 h
  obtain ⟨hkind, htext, rfl⟩ := of_decide_eq_true h
  exact ⟨o, haccess, hkind, htext⟩

/-- The child at a position, if it has a name, is one of the children that have a name. -/
theorem follow_mem_namedChildren {q : Place} {i : Nat}
    (h : q.node.children[i]?.any (·.named) = true) : q.follow [i] ∈ q.namedChildren := by
  obtain ⟨c, hc, hnamed⟩ := Option.any_eq_true _ _ |>.1 h
  have hfollow : q.follow [i] = q.down i c := by
    rw [Place.follow, hc]
    rfl
  rw [hfollow]
  exact List.mem_filter.2 ⟨Place.mem_children_iff.2 ⟨i, c, hc, rfl⟩, hnamed⟩

/-- The child in a field, if there is one. -/
theorem child?_eq_getD {q : Place} {field : String} (h : (q.child? field).isSome = true) :
    q.child? field = some ((q.child? field).getD default) := by
  obtain ⟨c, hc⟩ := Option.isSome_iff_exists.1 h
  rw [hc, Option.getD_some]

/-- The source of `console.log = f;`. -/
def assignSource : Bytes := Text.encode "console.log = f;\n"

/-- The tree of `assignSource`. -/
def assignTree : Node := treeOf "console.log = f;\n"

/-- The place of the assignment in `assignSource`. -/
def assignPlace : Place := Place.follow ⟨assignTree, []⟩ [0, 0]

/-- The place of the target in `assignSource`. -/
def assignTarget : Place := (assignPlace.child? "left").getD default

/-- The target of an assignment is left alone. -/
theorem written_reference_edit_iff_assignment :
    ∃ o, IsReference assignSource {} assignTarget o "log" ∧ IsWritten assignTarget ∧
      (∀ index, ((match? assignSource {} (Scope.Index.isBound assignSource) assignTarget).run
        index).1 = none) ∧
      LeftAlone assignSource {} assignTree assignTarget := by
  have htree : (assignPlace.kind ∈ assignmentKinds ∧ (assignPlace.child? "left").isSome = true) ∧
      NamesMember assignSource {} assignTarget "log" ∧ assignTree.WellNested ∧
      assignTree.stop ≤ assignSource.length ∧ AccessesAreClosed assignTree ∧
      Scope.KeysTell assignSource assignTree ∧
      ∀ q ∈ Place.all assignTree, fresh assignSource {} q = none := by decide +kernel
  obtain ⟨⟨hkind, hsome⟩, hnames, hnested, hin, hclosed, hkeys, hnone⟩ := htree
  have hleft := child?_eq_getD hsome
  have hmem : assignTarget ∈ Place.all assignTree :=
    Place.Below.mem_all (.child (mem_children_of_child? hleft)) (Place.follow_mem_preorder _ _)
  obtain ⟨o, href⟩ := hnames.exists_isReference
  have hwritten : IsWritten assignTarget := .assigned hkind hleft
  have htarget : IsTarget assignTarget := ⟨_, hkind, hleft⟩
  have hapart : MatchesApart assignSource {} assignTree := by
    rw [MatchesApart, (editsOf_eq_nil_iff hkeys).2 hnone]
    exact .nil
  obtain ⟨hasks, hleftAlone⟩ := written_reference_edit_iff href hwritten
  obtain ⟨after, -, hiff⟩ := hleftAlone assignTree hnested hin hclosed hapart hmem
    fun a e _ h => not_matched_of_fresh hkeys (hnone a h.mem_all) e h
  refine ⟨o, href, hwritten, fun index => ?_, hiff.2 (.inl htarget)⟩
  exact Option.eq_none_iff_forall_ne_some.2 fun e he => ((hasks index e).1 he).2.1 htarget

/-- The source of `[console.log] = [f];`. -/
def patternSource : Bytes := Text.encode "[console.log] = [f];\n"

/-- The tree of `patternSource`. -/
def patternTree : Node := treeOf "[console.log] = [f];\n"

/-- The place of the assignment in `patternSource`. -/
def patternAssign : Place := Place.follow ⟨patternTree, []⟩ [0, 0]

/-- The place of the pattern in `patternSource`. -/
def patternPlace : Place := (patternAssign.child? "left").getD default

/-- The place of the target in the pattern. -/
def patternTarget : Place := patternPlace.follow [1]

/-- The tree of `console.log++;`. -/
def updateTree : Node := treeOf "console.log++;\n"

/-- The place of the update in `console.log++;`. -/
def updatePlace : Place := Place.follow ⟨updateTree, []⟩ [0, 0]

/-- **A target is replaced**: in a pattern, so that the script is none any more, and in an update,
so that the script increments a function. -/
theorem written_reference_replaced :
    (IsWritten patternTarget ∧ (∃ o, IsReference patternSource {} patternTarget o "log") ∧
      IsReplaced patternSource {} patternTree patternTarget emptyFunction ∧
      Edit.spliced? patternSource ((editsOf patternSource {} patternTree).map (·.toEdit)) =
        some (Text.encode "[function () \x7b\x7d] = [f];\n") ∧
      (Script.grammar.parse "a.js" patternSource).isOk = true ∧
      (Script.grammar.parse "a.js" (Text.encode "[function () \x7b\x7d] = [f];\n")).isOk = false) ∧
    (IsWritten (updatePlace.follow [0]) ∧
      sanitizeWith Script.grammar Script.grammar {} ("console.log++;\n".toList.map (·.toNat))
        "a.js" = .ok (.ok ⟨"function () \x7b\x7d++;\n", 1, 0⟩)) := by
  have hpattern : (patternAssign.kind ∈ assignmentKinds ∧
      (patternAssign.child? "left").isSome = true ∧
      patternPlace.kind ∈ Scope.compoundPatternKinds ∧
      patternPlace.node.children[1]?.any (·.named) = true) ∧
      NamesMember patternSource {} patternTarget "log" ∧
      AsksAt patternSource patternTree patternTarget emptyFunction ∧
      found (fresh patternSource {}) ⟨patternTree, []⟩ =
        [⟨⟨1, 12, emptyFunction⟩, .removeDiagnosticCall⟩] ∧
      (Script.grammar.parse "a.js" patternSource).isOk = true := by decide +kernel
  obtain ⟨⟨hassign, hsome, hkind, hchild⟩, hnames, hasks, hfound, hparsed⟩ := hpattern
  have hleft := child?_eq_getD hsome
  have htarget := follow_mem_namedChildren hchild
  have hwritten : IsWritten patternTarget := .part (.assigned hassign hleft) hkind htarget
  have hmem : patternTarget ∈ Place.all patternTree :=
    Place.Below.mem_all (.deeper (.child (mem_children_of_child? hleft))
      (mem_children_of_mem_namedChildren htarget)) (Place.follow_mem_preorder _ _)
  have hedits : editsOf patternSource {} patternTree =
      [⟨⟨1, 12, emptyFunction⟩, .removeDiagnosticCall⟩] := by
    rw [editsOf_eq_fresh hasks.1 hasks.2.1, hfound]
  have hupdate : updatePlace.kind = "update_expression" ∧
      updatePlace.node.children[0]?.any (·.named) = true ∧
      AsksFor "console.log++;\n" "function () \x7b\x7d++;\n"
        ⟨⟨0, 11, emptyFunction⟩, .removeDiagnosticCall⟩ := by decide +kernel
  obtain ⟨hkind', hchild', hasks'⟩ := hupdate
  refine ⟨⟨hwritten, hnames.exists_isReference, hasks.isReplaced hmem, ?_, hparsed,
    by decide +kernel⟩, .updated hkind' (follow_mem_namedChildren hchild'),
    hasks'.sanitizeWith_eq⟩
  rw [hedits]
  decide +kernel

end ScriptScrub.Sanitizer
