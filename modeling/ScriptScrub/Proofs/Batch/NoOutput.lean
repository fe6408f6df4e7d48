import ScriptScrub.Proofs.Batch.Protected
import ScriptScrub.Proofs.Sanitizer.Idempotence
import ScriptScrub.Proofs.Sanitizer.Joining

/-!
# Files of which nothing would be left

If every edit of a tree is a removal and all that they leave is white space (`IsEmptied`), then
sanitizing fails and the file stays, and otherwise sanitizing never fails for that reason
(`emptied_iff_noOutput`). How the edits are spliced does not matter here, since splicing adds and
takes white space only (`isBlankOutput_solid`). A byte order mark is no white space: where it is all
that is left, it is taken for output, and the file is replaced by it (`byteOrderMark_written`).
-/

namespace ScriptScrub

/-- Texts that begin with different characters differ. -/
theorem append_ne_of_head? {first rest text : String} {c : Char}
    (hc : first.toList.head? = some c) (htext : text.toList.head? ≠ some c) :
    first ++ rest ≠ text := by
  rintro rfl
  rw [String.toList_append, List.head?_append, hc] at htext
  exact htext rfl

/-- Only the sentence of the empty output is that sentence. -/
theorem Cause.eq_noOutput_of_message {c : Cause} (h : c.message = noOutput.message) :
    c = .noOutput := by
  have differs : ∀ (first rest : String) (c : Char), first.toList.head? = some c → c ≠ 'N' →
      first ++ rest ≠ "No output generated" := by
    intro first rest c hc hne
    have hnew : "No output generated".toList.head? = some 'N' := by decide +kernel
    exact append_ne_of_head? hc fun hsome => hne (Option.some.inj (hsome.symm.trans hnew))
  cases c with
  | noOutput => rfl
  | unsupportedType suffix =>
      exact absurd h (differs "Unsupported file type: " _ 'U' (by decide +kernel) (by decide))
  | noGrammar dialect reason =>
      change "Failed to load " ++ dialect.name ++ " grammar: " ++ reason = _ at h
      rw [String.append_assoc, String.append_assoc] at h
      exact absurd h (differs "Failed to load " _ 'F' (by decide +kernel) (by decide))
  | missingToken kind =>
      exact absurd h (differs "Missing " _ 'M' (by decide +kernel) (by decide))
  | brokenRewrite why =>
      exact absurd h
        (differs "Rewritten source no longer parses: " _ 'R' (by decide +kernel) (by decide))
  | unreadable reason =>
      exact absurd h (differs "Failed to read file: " _ 'F' (by decide +kernel) (by decide))
  | unwritable reason =>
      exact absurd h (differs "Failed to write file: " _ 'F' (by decide +kernel) (by decide))
  | syntaxError | unexpectedToken | unencodable =>
      exact absurd h (by decide +kernel)

namespace Sanitizer

open Config (SanitizerSettings)

/-! ## Blank output -/

/-- A space, a tab or a line end of any kind. -/
def isWhite (b : UInt8) : Bool := b == 0x20 || (0x09 ≤ b && b ≤ 0x0D)

/-- What a removal may take along is white space. -/
theorem isWhite_of_isSpacing {b : UInt8} (h : Edit.isSpacing b = true) : isWhite b = true := by
  simp only [Edit.isSpacing, Edit.isBlank, Edit.isLineBreak, Bool.or_eq_true, beq_iff_eq] at h
  rcases h with (rfl | rfl) | (rfl | rfl) <;> decide

/-- An output is blank if it holds nothing but white space. -/
theorem isBlankOutput_iff {bytes : Bytes} :
    isBlankOutput bytes = true ↔ ∀ b ∈ bytes, isWhite b = true :=
  List.all_eq_true

/-- What a removal may take along makes no output. -/
theorem isBlankOutput_solid (bytes : Bytes) :
    isBlankOutput (Edit.solid bytes) = isBlankOutput bytes := by
  rw [Bool.eq_iff_iff, isBlankOutput_iff, isBlankOutput_iff]
  refine ⟨fun h b hb => ?_, fun h b hb => h b (List.mem_of_mem_filter hb)⟩
  cases hspacing : Edit.isSpacing b with
  | true => exact isWhite_of_isSpacing hspacing
  | false => exact h b (List.mem_filter.2 ⟨hb, by rw [hspacing]; rfl⟩)

/-- The edits leave nothing but white space of a source. -/
structure IsEmptied (source : Bytes) (edits : List Edit) : Prop where
  removals : ∀ e ∈ edits, e.isRemoval = true
  white : ∀ i b, source[i]? = some b → Edit.uncovered edits i = true → isWhite b = true

/-- What is true of all bytes that no edit covers can be looked up byte by byte. -/
theorem forall_uncovered_iff {source : Bytes} {edits : List Edit} {P : Nat → UInt8 → Bool} :
    (∀ i b, source[i]? = some b → Edit.uncovered edits i = true → P i b = true) ↔
      ∀ i < source.length, Edit.uncovered edits i = true → source[i]?.all (P i) = true := by
  refine ⟨fun h i hi hun => ?_, fun h i b hb hun => ?_⟩
  · rw [List.getElem?_eq_getElem hi]
    exact h i _ (List.getElem?_eq_getElem hi) hun
  · have hall := h i (List.getElem?_eq_some_iff.1 hb).1 hun
    rwa [hb] at hall

section
variable {source : Bytes} {settings : SanitizerSettings} {root : Node}

/-- What takes the place of a match is blank only if it is empty. -/
theorem isBlankOutput_replacement {e : Edit}
    (he : e ∈ (editsOf source settings root).map (·.toEdit)) :
    isBlankOutput (Text.encode e.replacement) = e.isRemoval := by
  have texts : ∀ text ∈ ["", emptyBlock, voidExpression, emptyFunction],
      isBlankOutput (Text.encode text) = text.isEmpty := by decide +kernel
  exact texts _ (replacement_mem he)

/-- What edits that are put in plainly leave is blank exactly if they leave nothing but white
space. -/
theorem isBlankOutput_plain (hroot : root.WellNested) (hin : root.stop ≤ source.length) :
    isBlankOutput (Edit.plain source 0 source.length
        ((editsOf source settings root).map (·.toEdit))) = true ↔
      IsEmptied source ((editsOf source settings root).map (·.toEdit)) := by
  have hfits : ∀ e ∈ (editsOf source settings root).map (·.toEdit),
      0 ≤ e.start ∧ e.start ≤ e.stop ∧ e.stop ≤ source.length := by
    intro e he
    have hfit := fits_of_mem_map hroot hin he
    exact ⟨Nat.zero_le _, hfit.ordered, hfit.inside⟩
  have hmem : ∀ b, b ∈ Edit.plain source 0 source.length _ ↔ _ := fun b =>
    Edit.mem_plain_iff (pairwise_editsOf source settings hroot) hfits
  rw [isBlankOutput_iff]
  constructor
  · intro hwhite
    refine ⟨fun e he => ?_, fun i b hb hun => ?_⟩
    · rw [← isBlankOutput_replacement he, isBlankOutput_iff]
      exact fun b hb => hwhite b ((hmem b).2 (.inr ⟨e, he, hb⟩))
    · have hlt := (List.getElem?_eq_some_iff.1 hb).1
      exact hwhite b ((hmem b).2 (.inl ⟨i, Nat.zero_le i, hlt, hb, hun⟩))
  · intro h b hb
    rcases (hmem b).1 hb with ⟨i, -, -, hi, hun⟩ | ⟨e, he, hb⟩
    · exact h.white i b hi hun
    · have hblank := isBlankOutput_replacement he
      rw [h.removals e he, isBlankOutput_iff] at hblank
      exact hblank b hb

/-- **The output is blank** exactly if the edits leave nothing but white space of the source. -/
theorem exists_spliced_isBlankOutput (hroot : root.WellNested) (hin : root.stop ≤ source.length)
    (hapart : MatchesApart source settings root) :
    ∃ output, Edit.spliced? source ((editsOf source settings root).map (·.toEdit)) = some output ∧
      (isBlankOutput output = true ↔
        IsEmptied source ((editsOf source settings root).map (·.toEdit))) := by
  obtain ⟨output, hout, hrun⟩ := exists_spliced_editsOf hroot hin hapart
  have hsolid : Edit.solid output = Edit.solid (Edit.plain source 0 source.length
      ((editsOf source settings root).map (·.toEdit))) := by
    rw [hrun.solid_eq, List.reverse_reverse]
    exact List.append_nil _
  refine ⟨output, hout, ?_⟩
  rw [← isBlankOutput_solid, hsolid, isBlankOutput_solid, isBlankOutput_plain hroot hin]

variable {again : Parser} {path : String}

variable (again path) in
/-- **Rewriting a tree** fails for want of output exactly if its edits leave nothing but white
space. -/
theorem rewriteTree_noOutput (hroot : root.WellNested) (hin : root.stop ≤ source.length)
    (hapart : MatchesApart source settings root) :
    (IsEmptied source ((editsOf source settings root).map (·.toEdit)) →
      rewriteTree again settings path source root = .ok (.error ⟨path, .noOutput, none⟩)) ∧
    ∀ failure, rewriteTree again settings path source root = .ok (.error failure) →
      failure.cause = .noOutput →
        IsEmptied source ((editsOf source settings root).map (·.toEdit)) := by
  obtain ⟨output, hout, hblank⟩ := exists_spliced_isBlankOutput hroot hin hapart
  rw [rewriteTree_eq, ← hblank]
  simp only [hout]
  constructor
  · intro hb
    rw [checkOutput, if_pos hb]
  · intro failure h hcause
    split at h
    · next hcheck =>
      cases h
      rcases failure_of_checkOutput hcheck with ⟨hwhite, -⟩ | ⟨e, rfl⟩
      · exact hwhite
      · cases hcause
    · split at h <;> cases h

end

end Sanitizer

namespace Batch

open Sanitizer (IsEmptied editsOf sanitizeWith MatchesApart)

section
variable {r : Runner} {files : FileTree} {here : List String} {task : Task} {text : String}

/-- A file whose text cannot be sanitized is left as it is. -/
theorem rewrite_of_error {path : String} {failure : Failure}
    (h : sanitizeWith r.grammar r.grammar r.sanitizer (text.toList.map (·.toNat)) path r.room =
      .ok (.error failure)) :
    r.rewrite files here path text = .ok (failed (r.meanwhile path files) path failure) := by
  simp only [Runner.rewrite, h]

/-- A file whose text becomes another one is given that. -/
theorem rewrite_of_ok {path : String} {s : Sanitizer.Sanitized} {after : FileTree}
    (h : sanitizeWith r.grammar r.grammar r.sanitizer (text.toList.map (·.toNat)) path r.room =
      .ok (.ok s))
    (hcode : s.code ≠ text) (hdry : r.dryRun = false)
    (hwrite : r.write (r.meanwhile path files) here path (Text.encode s.code) = .ok after) :
    r.rewrite files here path text =
      .ok (⟨after, [.processed path s.removedCalls s.removedComments]⟩, .processed path true) := by
  simp [Runner.rewrite, h, hcode, hdry, hwrite]

end

/-- **A file is never replaced by nothing.** If the edits of its tree leave nothing but white space
of a text, then on a stack that has room for the tree sanitizing fails for want of output, and
processing the file fails for the same reason and writes nothing. If they leave anything else,
neither of the two ever fails so, whatever the stack has room for. -/
theorem emptied_iff_noOutput {r : Runner} {path text : String} {root : Node}
    (hparsed : r.grammar.parse path (Text.encode text) = .ok root) (hroot : root.WellNested)
    (hin : root.stop ≤ (Text.encode text).length)
    (hapart : MatchesApart (Text.encode text) r.sanitizer root) :
    let edits := (editsOf (Text.encode text) r.sanitizer root).map (·.toEdit)
    let sanitized :=
      sanitizeWith r.grammar r.grammar r.sanitizer (text.toList.map (·.toNat)) path r.room
    (IsEmptied (Text.encode text) edits → r.room.Suffices (Text.encode text) root →
      sanitized = .ok (.error ⟨path, .noOutput, none⟩) ∧
      ∀ files here excluded, r.read files here path = .ok (Text.encode text) →
        r.process files here ⟨path, excluded⟩ = .ok (
          if excluded then (⟨files, [.excluded path]⟩, .skipped path)
          else failed (r.meanwhile path files) path ⟨path, .noOutput, none⟩)) ∧
    (¬ IsEmptied (Text.encode text) edits →
      (∀ failure, sanitized = .ok (.error failure) →
        failure.report.message ≠ "No output generated") ∧
      ∀ files here excluded done outcome, r.read files here path = .ok (Text.encode text) →
        r.process files here ⟨path, excluded⟩ = .ok (done, outcome) →
          ∀ failure, outcome.failure? = some failure →
            failure.report.message ≠ "No output generated") := by
  intro edits sanitized
  have hrewritten : sanitized = Sanitizer.rewriteTree r.grammar.parse r.sanitizer path
      (Text.encode text) root r.room := by
    simp only [sanitized, sanitizeWith, Sanitizer.sanitizeBy, Text.encode?_toNat, hparsed]
  obtain ⟨hempty, hsome⟩ :=
    Sanitizer.rewriteTree_noOutput r.grammar.parse path hroot hin hapart
  constructor
  · intro hemptied hroom
    have hfails : sanitized = .ok (.error ⟨path, .noOutput, none⟩) := by
      rw [hrewritten, Sanitizer.rewriteTree_of_suffices hroom, hempty hemptied]
    refine ⟨hfails, fun files here excluded hread => ?_⟩
    cases excluded with
    | true => rfl
    | false => rw [process_of_read rfl hread, rewrite_of_error hfails]; rfl
  · intro hleft
    have hsanitized : ∀ failure, sanitized = .ok (.error failure) →
        failure.report.message ≠ "No output generated" := by
      intro failure h hmessage
      rw [hrewritten, Sanitizer.rewriteTree_room] at h
      split at h
      · exact hleft (hsome failure h (Cause.eq_noOutput_of_message hmessage))
      · cases h
    refine ⟨hsanitized, fun files here excluded done outcome hread hprocess failure hfailure => ?_⟩
    cases excluded with
    | true =>
        cases hprocess
        cases hfailure
    | false =>
        rw [process_of_read rfl hread] at hprocess
        rcases failure_of_rewrite hprocess hfailure with h | ⟨-, content, e, -, hreason⟩
        · exact hsanitized failure h
        · intro hmessage
          have hcause := Cause.eq_noOutput_of_message hmessage
          rw [hreason] at hcause
          cases hcause

/-! ## Scripts -/

/-- A folder that holds a script. -/
def folderOf (script : String) : FileTree := ⟨[("a.js", .file (Text.encode script))]⟩

/-- The script is where its name leads. -/
theorem locate_folderOf (script : String) : (folderOf script).locate [] "a.js" = .ok ["a.js"] := by
  have hpath : Path.isAbsolute "a.js" = false ∧ Path.parts "a.js" = ["a.js"] := by decide +kernel
  rw [FileTree.locate, hpath.1, hpath.2, if_neg Bool.false_ne_true]
  exact FileTree.walkTo_of_get? (e := .file (Text.encode script)) (by decide) rfl
    fun target => by simp [Entry.shape]

/-- The usual runner reads the script. -/
theorem read_folderOf (script : String) :
    usualRunner.read (folderOf script) [] "a.js" = .ok (Text.encode script) :=
  FileTree.read_of_locate (locate_folderOf script) rfl

/-- The usual runner gives the script another text. -/
theorem write_folderOf (script text : String) :
    usualRunner.write (folderOf script) [] "a.js" (Text.encode text) = .ok (folderOf text) :=
  FileTree.write_eq_ok_iff.2 ⟨_, _, locate_folderOf script, rfl, rfl⟩

/-- The edits of a script. -/
def editsIn (script : String) : List Edit :=
  (editsOf (Text.encode script) {} (Sanitizer.treeOf script)).map (·.toEdit)

/-- A file with a call and nothing else is left as it is. -/
theorem emptied_iff_noOutput_call :
    IsEmptied (Text.encode "console.log(1);\n") (editsIn "console.log(1);\n") ∧
    sanitizeWith Script.grammar Script.grammar {} ("console.log(1);\n".toList.map (·.toNat))
      "a.js" = .ok (.error ⟨"a.js", .noOutput, none⟩) ∧
    usualRunner.process (folderOf "console.log(1);\n") [] ⟨"a.js", false⟩ =
      .ok (failed (folderOf "console.log(1);\n") "a.js" ⟨"a.js", .noOutput, none⟩) := by
  have hscript : (Script.grammar.parse "a.js" (Text.encode "console.log(1);\n")).isOk = true ∧
      (Sanitizer.treeOf "console.log(1);\n").WellNested ∧
      (Sanitizer.treeOf "console.log(1);\n").stop ≤ (Text.encode "console.log(1);\n").length ∧
      Scope.KeysTell (Text.encode "console.log(1);\n") (Sanitizer.treeOf "console.log(1);\n") ∧
      Sanitizer.found (Sanitizer.fresh (Text.encode "console.log(1);\n") {})
        ⟨Sanitizer.treeOf "console.log(1);\n", []⟩ = [⟨⟨0, 15, ""⟩, .removeDiagnosticCall⟩] := by
    decide +kernel
  obtain ⟨hparsed, hnested, hin, hkeys, hfound⟩ := hscript
  have hedits : editsOf (Text.encode "console.log(1);\n") {}
      (Sanitizer.treeOf "console.log(1);\n") = [⟨⟨0, 15, ""⟩, .removeDiagnosticCall⟩] := by
    rw [Sanitizer.editsOf_eq_fresh hnested hkeys, hfound]
  have hapart : MatchesApart (Text.encode "console.log(1);\n") {}
      (Sanitizer.treeOf "console.log(1);\n") := by
    rw [MatchesApart, hedits]
    exact .singleton _
  have hemptied : IsEmptied (Text.encode "console.log(1);\n") (editsIn "console.log(1);\n") := by
    rw [editsIn, hedits]
    exact ⟨by decide +kernel,
      Sanitizer.forall_uncovered_iff (P := fun _ => Sanitizer.isWhite) |>.2 (by decide +kernel)⟩
  have h := (emptied_iff_noOutput (r := usualRunner) (Sanitizer.parse_treeOf hparsed) hnested hin
    hapart).1 hemptied (Scope.Room.suffices_endless _ _)
  exact ⟨hemptied, h.1, h.2 _ [] false (read_folderOf _)⟩

/-- **A byte order mark is taken for output**: the one call of the script is removed, all that is
left is the mark, and the file is replaced by it. -/
theorem byteOrderMark_written :
    (∀ e ∈ editsIn "\ufeffconsole.log(1);\n", e.isRemoval = true) ∧
    Edit.byteOrderMark <+: Text.encode "\ufeffconsole.log(1);\n" ∧
    (∀ i b, (Text.encode "\ufeffconsole.log(1);\n")[i]? = some b →
      Edit.uncovered (editsIn "\ufeffconsole.log(1);\n") i = true →
        Sanitizer.isWhite b = true ∨ i < Edit.byteOrderMark.length) ∧
    sanitizeWith Script.grammar Script.grammar {}
        ("\ufeffconsole.log(1);\n".toList.map (·.toNat)) "a.js" = .ok (.ok ⟨"\ufeff", 1, 0⟩) ∧
    usualRunner.process (folderOf "\ufeffconsole.log(1);\n") [] ⟨"a.js", false⟩ =
      .ok (⟨folderOf "\ufeff", [.processed "a.js" 1 0]⟩, .processed "a.js" true) ∧
    Text.encode "\ufeff" = Edit.byteOrderMark := by
  have hasks : Sanitizer.AsksFor "\ufeffconsole.log(1);\n" "\ufeff"
      ⟨⟨3, 18, ""⟩, .removeDiagnosticCall⟩ := by decide +kernel
  have hedits : editsIn "\ufeffconsole.log(1);\n" = [⟨3, 18, ""⟩] := by
    obtain ⟨-, hnested, hkeys, hfound, -⟩ := hasks
    rw [editsIn, Sanitizer.editsOf_eq_fresh hnested hkeys, hfound]
    rfl
  rw [hedits]
  have hleft : ∀ i b, (Text.encode "\ufeffconsole.log(1);\n")[i]? = some b →
      Edit.uncovered [⟨3, 18, ""⟩] i = true →
        (Sanitizer.isWhite b || decide (i < Edit.byteOrderMark.length)) = true :=
    Sanitizer.forall_uncovered_iff (P := fun i b =>
      Sanitizer.isWhite b || decide (i < Edit.byteOrderMark.length)) |>.2 (by decide +kernel)
  refine ⟨by decide +kernel, by decide +kernel, fun i b hb hun => ?_, hasks.sanitizeWith_eq, ?_,
    by decide +kernel⟩
  · simpa using hleft i b hb hun
  · rw [process_of_read rfl (read_folderOf _)]
    exact rewrite_of_ok (r := usualRunner) hasks.sanitizeWith_eq (by decide +kernel) rfl
      (write_folderOf _ _)

end Batch

end ScriptScrub
