import ScriptScrub.Proofs.Edit.Splice
import ScriptScrub.Proofs.Sanitizer.Stack

/-!
# Sanitizing breaks nothing

If the parser either fails or gives a tree that fits its source (`Fitting`), and successive matches
do not touch (`MatchesApart`), then sanitizing comes to a result: no edit reaches outside the text
(`exists_spliced_editsOf`), and no character is cut apart (`exists_text_editsOf`).
-/

namespace ScriptScrub.Sanitizer

open Config (SanitizerSettings)
open Text (IsText OnBoundary)

/-! ## Trees that fit -/

/-- The nodes of the tree lie in the source, one inside the other, and between characters. -/
structure Fitting (source : Bytes) (root : Node) : Prop where
  nested : root.WellNested
  inside : root.stop ≤ source.length
  between : ∀ n ∈ root.preorder, OnBoundary source n.start ∧ OnBoundary source n.stop

/-- Of two successive matches, the last byte of the first or some byte between them is no blank. -/
def MatchesApart (source : Bytes) (settings : SanitizerSettings) (root : Node) : Prop :=
  ((editsOf source settings root).map (·.toEdit)).IsChain (Edit.Separated source)

section
variable {source : Bytes} {settings : SanitizerSettings} {root : Node}

/-- The edits of a tree are in place in it. -/
theorem exists_node_of_mem_editsOf {e : RuleEdit} (he : e ∈ editsOf source settings root) :
    ∃ n ∈ root.preorder, e.start = n.start ∧ e.stop = n.stop := by
  obtain ⟨p, hp⟩ := mem_editsOf_iff.1 he
  exact ⟨p.node, Place.node_mem_of_mem_all hp.mem_all, hp.match.range⟩

/-- The edits of a well-nested tree inside a source fit the source. -/
theorem fits_of_mem_editsOf (hroot : root.WellNested) (hin : root.stop ≤ source.length)
    {e : RuleEdit} (he : e ∈ editsOf source settings root) : Edit.Fits source e.toEdit := by
  obtain ⟨p, hp⟩ := mem_editsOf_iff.1 he
  obtain ⟨hs, ht⟩ := hp.match.range
  obtain ⟨horder, hstop⟩ := Place.range_of_mem_all hroot hp.mem_all
  refine ⟨?_, ?_⟩
  · rw [hs, ht]
    exact horder
  · rw [ht]
    exact Nat.le_trans hstop hin

/-- The same of the edits without their rules. -/
theorem fits_of_mem_map (hroot : root.WellNested) (hin : root.stop ≤ source.length) {e : Edit}
    (he : e ∈ (editsOf source settings root).map (·.toEdit)) : Edit.Fits source e := by
  obtain ⟨d, hd, rfl⟩ := List.mem_map.1 he
  exact fits_of_mem_editsOf hroot hin hd

/-- **The edits of a tree can be spliced** if successive matches do not touch. -/
theorem exists_spliced_editsOf (hroot : root.WellNested) (hin : root.stop ≤ source.length)
    (hapart : MatchesApart source settings root) :
    ∃ output, Edit.spliced? source ((editsOf source settings root).map (·.toEdit)) = some output ∧
      Edit.Run source ((editsOf source settings root).map (·.toEdit)).reverse source.length []
        output :=
  Edit.exists_spliced (fun _ he => fits_of_mem_map hroot hin he) hapart

/-- **What splicing leaves of a text is a text** if the tree fits. -/
theorem exists_text_editsOf (hsource : IsText source) (hfit : Fitting source root)
    (hapart : MatchesApart source settings root) :
    ∃ output, Edit.spliced? source ((editsOf source settings root).map (·.toEdit)) = some output ∧
      IsText output := by
  obtain ⟨output, hout, hrun⟩ := exists_spliced_editsOf hfit.nested hfit.inside hapart
  have hend : OnBoundary source source.length :=
    ⟨Nat.le_refl _, fun b hb => by simp at hb⟩
  refine ⟨output, hout, hrun.isText hsource (fun e he => ?_) hend Text.isText_nil⟩
  obtain ⟨d, hd, rfl⟩ := List.mem_map.1 (List.mem_reverse.1 he)
  obtain ⟨n, hn, hstart, hstop⟩ := exists_node_of_mem_editsOf hd
  rw [hstart, hstop]
  exact hfit.between n hn

end

/-! ## Sanitizing -/

section
variable {first again : Parser} {settings : SanitizerSettings} {path : String}

/-- Rewriting a tree whose edits leave a text comes to a result. -/
theorem rewriteTree_eq_ok {source output : Bytes} {root : Node}
    (hout : Edit.spliced? source ((editsOf source settings root).map (·.toEdit)) = some output)
    (htext : IsText output) :
    ∃ result, rewriteTree again settings path source root = .ok result := by
  obtain ⟨code, hcode, -⟩ := htext.decode?
  rw [rewriteTree_eq]
  simp only [hout, hcode]
  cases checkOutput again path (editsOf source settings root) output with
  | error e => exact ⟨_, rfl⟩
  | ok _ => exact ⟨_, rfl⟩

/-- A result holds a text or a failure, never both. -/
theorem Result.code_isSome (path : String) (result : Except Failure Sanitized) :
    (Result.of path result).code.isSome = !(Result.of path result).error.isSome := by
  cases result <;> rfl

/-- **Sanitizing comes to a result** that holds either a text or a failure, whatever the text, the
path, the settings and the parsers are, if a tree that the text gets fits it and successive matches
do not touch, or else it overflows a stack that has no room for some node of the tree. On the way no
removal looks outside its buffer, and what splicing leaves is the UTF-8 of some text. -/
theorem sanitizeBy_total {text : List CodePoint} (htext : ∀ c ∈ text, c < 0x110000)
    (hfirst : ∀ source root, Text.encode? text = some source → first path source = .ok root →
      Fitting source root ∧ MatchesApart source settings root) (room : Scope.Room) :
    ((∃ result, sanitizeBy first again settings text path room = .ok result ∧
        (Result.of path result).code.isSome = !(Result.of path result).error.isSome) ∨
      sanitizeBy first again settings text path room = .error .stackOverflow ∧
        ∃ source root, Text.encode? text = some source ∧ first path source = .ok root ∧
          ¬ room.Suffices source root) ∧
    ∀ source root, Text.encode? text = some source → first path source = .ok root →
      ∃ output code,
        Edit.spliced? source ((editsOf source settings root).map (·.toEdit)) = some output ∧
        Text.decode? output = some code ∧ Text.encode code = output ∧
        ∀ t ∈ Edit.stages (Edit.lastFirst ((editsOf source settings root).map (·.toEdit))) source,
          t.2.isRemoval = true →
            ∀ i ∈ Edit.removalReads t.1 t.2.start t.2.stop, i < t.1.length := by
  have spliced : ∀ source root, Text.encode? text = some source → first path source = .ok root →
      ∃ output, Edit.spliced? source ((editsOf source settings root).map (·.toEdit)) = some output ∧
        IsText output := fun source root hsource hroot =>
    exists_text_editsOf (Text.isText_of_encode? htext hsource) (hfirst source root hsource hroot).1
      (hfirst source root hsource hroot).2
  constructor
  · have htotal : ∃ result, sanitizeBy first again settings text path = .ok result := by
      rw [sanitizeBy]
      cases hsource : Text.encode? text with
      | none => exact ⟨_, rfl⟩
      | some source =>
          dsimp only
          cases hroot : first path source with
          | error e => exact ⟨_, rfl⟩
          | ok root =>
              obtain ⟨output, hout, hoccurs⟩ := spliced source root hsource hroot
              exact rewriteTree_eq_ok hout hoccurs
    obtain ⟨result, hresult⟩ := htotal
    rcases sanitizeBy_overflows_or_eq room with hover | heq
    · exact .inr hover
    · exact .inl ⟨result, heq.trans hresult, Result.code_isSome path result⟩
  · intro source root hsource hroot
    obtain ⟨output, hout, hoccurs⟩ := spliced source root hsource hroot
    obtain ⟨code, hcode, hencode⟩ := hoccurs.decode?
    exact ⟨output, code, hout, hcode, hencode, Edit.reads_lt_of_mem_stages hout⟩

end

/-- The tree of `console.log(1); // x` and a second line `f`. -/
def callThenComment : Node where
  kind := "program"
  start := 0
  stop := 23
  children := [
    { kind := "expression_statement", start := 0, stop := 15, children := [
      { kind := "call_expression", start := 0, stop := 14, children := [
        { kind := "member_expression", start := 0, stop := 11, field := some "function",
          children := [
            { kind := "identifier", start := 0, stop := 7, field := some "object" },
            { kind := ".", start := 7, stop := 8, named := false },
            { kind := "property_identifier", start := 8, stop := 11, field := some "property" }] },
        { kind := "arguments", start := 11, stop := 14, field := some "arguments" }] },
      { kind := ";", start := 14, stop := 15, named := false }] },
    { kind := "comment", start := 16, stop := 20 },
    { kind := "expression_statement", start := 21, stop := 22, children := [
      { kind := "identifier", start := 21, stop := 22 }] }]

/-- A parser that knows one text. -/
def callThenCommentParser : Parser := fun path source =>
  if source = Text.encode "console.log(1); // x\nf\n" then .ok callThenComment
  else .error ⟨path, .syntaxError, none⟩

/-- Its text and its tree. -/
theorem eq_of_callThenCommentParser {path : String} {source : Bytes} {root : Node}
    (h : callThenCommentParser path source = .ok root) :
    source = Text.encode "console.log(1); // x\nf\n" ∧ root = callThenComment := by
  rw [callThenCommentParser] at h
  split at h
  · next hsource =>
    cases h
    exact ⟨hsource, rfl⟩
  · cases h

/-- Sanitizing a call and a comment behind it comes to a result on the usual stack. -/
theorem sanitizeBy_total_callThenComment :
    ∃ result, sanitizeBy callThenCommentParser callThenCommentParser {}
        ("console.log(1); // x\nf\n".toList.map (·.toNat)) "a.js" .usual = .ok result ∧
      (Result.of "a.js" result).code.isSome = !(Result.of "a.js" result).error.isSome := by
  have hfits : ∀ source root,
      Text.encode? ("console.log(1); // x\nf\n".toList.map (·.toNat)) = some source →
      callThenCommentParser "a.js" source = .ok root →
        Fitting source root ∧ MatchesApart source {} root := by
    intro source root _ hroot
    obtain ⟨rfl, rfl⟩ := eq_of_callThenCommentParser hroot
    have hnested : callThenComment.WellNested := by decide +kernel
    refine ⟨⟨hnested, by decide +kernel, by decide +kernel⟩, ?_⟩
    rw [MatchesApart, editsOf_eq_fresh hnested (by decide +kernel)]
    decide +kernel
  refine (sanitizeBy_total (by decide +kernel) hfits .usual).1.resolve_right ?_
  rintro ⟨-, source, root, -, hroot, hsmall⟩
  obtain ⟨rfl, rfl⟩ := eq_of_callThenCommentParser hroot
  exact hsmall (by decide +kernel)

end ScriptScrub.Sanitizer
