import ScriptScrub.Proofs.Sanitizer.Settled
import ScriptScrub.Proofs.Text.Utf8
import ScriptScrub.Sanitizer.Sanitize
import ScriptScrub.Script.Parse

/-!
# Sanitizing twice

A text that was sanitized is sanitized to itself, and nothing more is removed, if what is read again
is what is left of the tree (`Rereads`, `sanitized_again`): no edit makes a new comment, a new
diagnostic expression or an unbound name out of what it leaves. The text need not be read like that:
statements that a removed one kept apart may be read as one, and then the second time removes what
the first one left (`sanitized_again_differs`).
-/

namespace ScriptScrub.Sanitizer

open Config (SanitizerSettings)

/-- The tree `rest` of the output is what is left of the tree `root` of the source, and no edit took
a variable along. -/
structure Rereads (source output : Bytes) (settings : SanitizerSettings) (root rest : Node) :
    Prop where
  left : isLeftOf source output settings ⟨root, []⟩ rest = true
  keepsVariables : KeepsVariables source settings root

section
variable {grammar : Grammar} {settings : SanitizerSettings} {text : List CodePoint} {path : String}

/-- What a text went through that was sanitized. -/
structure Sanitizes (grammar : Grammar) (settings : SanitizerSettings) (text : List CodePoint)
    (path : String) (s : Sanitized) (source output : Bytes) (root : Node) : Prop where
  encoded : Text.encode? text = some source
  parsed : grammar.parse path source = .ok root
  spliced : Edit.spliced? source ((editsOf source settings root).map (·.toEdit)) = some output
  checked : checkOutput grammar.parse path (editsOf source settings root) output = .ok ()
  decoded : Text.decode? output = some s.code

/-- **Inverting the sanitizer.** -/
theorem exists_sanitizes {s : Sanitized}
    (h : sanitizeWith grammar grammar settings text path = .ok (.ok s)) :
    ∃ source output root, Sanitizes grammar settings text path s source output root := by
  rw [sanitizeWith, sanitizeBy] at h
  split at h
  · cases h
  next source hsource =>
  split at h
  · cases h
  next root hroot =>
  rw [rewriteTree_eq] at h
  split at h
  · cases h
  next output houtput =>
  split at h
  · cases h
  next hchecked =>
  split at h
  · cases h
  next code hcode =>
  cases h
  exact ⟨source, output, root, hsource, hroot, houtput, hchecked, hcode⟩

/-- Without edits a source stays as it is. -/
theorem spliced?_nil (source : Bytes) : Edit.spliced? source [] = some source := by
  rw [Edit.spliced?, Edit.lastFirst, List.mergeSort_nil, Edit.spliceEach]

/-- A source whose edits are known is sanitized to what splicing leaves of it. -/
theorem sanitizeWith_eq_ok {source output : Bytes} {root : Node} {edits : List RuleEdit}
    {code : String} (hsource : Text.encode? text = some source)
    (hroot : grammar.parse path source = .ok root) (hedits : editsOf source settings root = edits)
    (hspliced : Edit.spliced? source (edits.map (·.toEdit)) = some output)
    (hchecked : checkOutput grammar.parse path edits output = .ok ())
    (hcode : Text.decode? output = some code) :
    sanitizeWith grammar grammar settings text path =
      .ok (.ok ⟨code, edits.countP fun e => e.rule = .removeDiagnosticCall,
        edits.length - edits.countP fun e => e.rule = .removeDiagnosticCall⟩) := by
  simp only [sanitizeWith, sanitizeBy, hsource, hroot, rewriteTree_eq, hedits, hspliced, hchecked,
    hcode]

/-- What passed the check is no blank, and it is a script if there were edits. -/
theorem of_checkOutput {edits : List RuleEdit} {output : Bytes}
    (h : checkOutput grammar.parse path edits output = .ok ()) :
    isBlankOutput output = false ∧ (edits = [] ∨ ∃ rest, grammar.parse path output = .ok rest) := by
  rw [checkOutput] at h
  split at h
  · cases h
  next hblank =>
  refine ⟨Bool.eq_false_iff.2 hblank, ?_⟩
  split at h
  · next hempty => exact .inl (List.isEmpty_iff.1 hempty)
  split at h
  · next rest hrest => exact .inr ⟨rest, hrest⟩
  · cases h

/-- A tree that asks for nothing holds no comment where they go, and no diagnostic expression where
they go, except by a bound name or of a preserved severity. -/
structure Settled (source : Bytes) (settings : SanitizerSettings) (root : Node) : Prop where
  uncommented : .stripComments ∈ settings.rules → ∀ n ∈ root.preorder, isComment n = false
  undiagnosed : .removeDiagnosticCall ∈ settings.rules → ∀ p ∈ Place.all root, ∀ o severity,
    IsDiagnostic source settings p o severity →
      severity ∈ settings.preservedSeverities ∨ Scope.isBound source o = true

/-- A tree no place of which asks for an edit is settled. -/
theorem settled_of_fresh {source : Bytes} {root : Node}
    (h : ∀ p ∈ Place.all root, fresh source settings p = none) : Settled source settings root where
  uncommented := by
    intro hr n hn
    rw [← Place.map_node_preorder ⟨root, []⟩] at hn
    obtain ⟨p, hp, rfl⟩ := List.mem_map.1 hn
    exact Bool.eq_false_iff.2 fun hcomment => fresh_ne_none_of_isComment hcomment hr (h p hp)
  undiagnosed := by
    intro hr p hp o severity hd
    by_contra hnot
    rw [not_or, Bool.not_eq_true] at hnot
    exact fresh_ne_none_of_isDiagnostic hr hd hnot.1 hnot.2 (h p hp)

/-- **Sanitizing twice.** A text that was sanitized is sanitized to itself, nothing is removed, and
its tree is settled, if the tree is what is left of the first one wherever something was removed. -/
theorem sanitized_again {s : Sanitized}
    (h : sanitizeWith grammar grammar settings text path = .ok (.ok s))
    (hkeys : ∀ rest, grammar.parse path (Text.encode s.code) = .ok rest →
      Scope.KeysTell (Text.encode s.code) rest)
    (hrest : ∀ source root rest, Text.encode? text = some source →
      grammar.parse path source = .ok root → grammar.parse path (Text.encode s.code) = .ok rest →
      editsOf source settings root ≠ [] → Rereads source (Text.encode s.code) settings root rest) :
    sanitizeWith grammar grammar settings (s.code.toList.map (·.toNat)) path =
        .ok (.ok ⟨s.code, 0, 0⟩) ∧
      ∃ rest, grammar.parse path (Text.encode s.code) = .ok rest ∧
        Settled (Text.encode s.code) settings rest := by
  obtain ⟨source, output, root, hfirst⟩ := exists_sanitizes h
  obtain ⟨hblank, hagain⟩ := of_checkOutput hfirst.checked
  obtain rfl := Text.encode_of_decode? hfirst.decoded
  have hasksNothing : ∃ rest, grammar.parse path (Text.encode s.code) = .ok rest ∧
      ∀ p ∈ Place.all rest, fresh (Text.encode s.code) settings p = none := by
    by_cases hnil : editsOf source settings root = []
    · have hsame := hfirst.spliced
      rw [hnil, List.map_nil, spliced?_nil, Option.some.injEq] at hsame
      have hparsed := hfirst.parsed
      rw [hsame] at hparsed hnil
      exact ⟨root, hparsed, (editsOf_eq_nil_iff (hkeys root hparsed)).1 hnil⟩
    · obtain ⟨rest, hparsed⟩ := hagain.resolve_left hnil
      obtain ⟨hleft, hvars⟩ := hrest source root rest hfirst.encoded hfirst.parsed hparsed hnil
      exact ⟨rest, hparsed, fun p hp => fresh_eq_none_of_left hleft hvars hp⟩
  obtain ⟨rest, hparsed, hnone⟩ := hasksNothing
  have hnil := (editsOf_eq_nil_iff (hkeys rest hparsed)).2 hnone
  have hchecked : checkOutput grammar.parse path [] (Text.encode s.code) = .ok () := by
    rw [checkOutput, hblank]
    rfl
  exact ⟨sanitizeWith_eq_ok (Text.encode?_toNat s.code) hparsed hnil (spliced?_nil _) hchecked
    hfirst.decoded, rest, hparsed, settled_of_fresh hnone⟩

end

/-! ## Scripts -/

/-- The tree of a script. -/
def treeOf (script : String) : Node :=
  (Script.grammar.parse "a.js" (Text.encode script)).toOption.getD default

/-- A script without a fault has its tree. -/
theorem parse_treeOf {script : String}
    (h : (Script.grammar.parse "a.js" (Text.encode script)).isOk = true) :
    Script.grammar.parse "a.js" (Text.encode script) = .ok (treeOf script) := by
  rw [treeOf]
  cases hparsed : Script.grammar.parse "a.js" (Text.encode script) with
  | ok root => rfl
  | error e =>
      rw [hparsed] at h
      cases h

/-- The script asks for the edit `e` alone, which leaves the output, a script again. -/
def AsksFor (script output : String) (e : RuleEdit) : Prop :=
  (Script.grammar.parse "a.js" (Text.encode script)).isOk = true ∧ (treeOf script).WellNested ∧
    Scope.KeysTell (Text.encode script) (treeOf script) ∧
    found (fresh (Text.encode script) {}) ⟨treeOf script, []⟩ = [e] ∧
    Edit.spliced? (Text.encode script) [e.toEdit] = some (Text.encode output) ∧
    checkOutput Script.grammar.parse "a.js" [e] (Text.encode output) = .ok () ∧
    e.rule = .removeDiagnosticCall

instance (script output : String) (e : RuleEdit) : Decidable (AsksFor script output e) :=
  inferInstanceAs (Decidable (_ ∧ _))

/-- A script that asks for one edit is sanitized by it. -/
theorem AsksFor.sanitizeWith_eq {script output : String} {e : RuleEdit}
    (h : AsksFor script output e) :
    sanitizeWith Script.grammar Script.grammar {} (script.toList.map (·.toNat)) "a.js" =
      .ok (.ok ⟨output, 1, 0⟩) := by
  obtain ⟨hparsed, hnested, hkeys, hfound, hspliced, hchecked, hrule⟩ := h
  have hedits : editsOf (Text.encode script) {} (treeOf script) = [e] := by
    rw [editsOf_eq_fresh hnested hkeys, hfound]
  rw [sanitizeWith_eq_ok (Text.encode?_toNat script) (parse_treeOf hparsed) hedits hspliced hchecked
    (Text.decode?_encode output)]
  simp [hrule]

/-- A reference that is handed on becomes an empty function, and that is all there is to remove. -/
theorem sanitized_again_reference :
    sanitizeWith Script.grammar Script.grammar {} ("f(console.log)".toList.map (·.toNat)) "a.js" =
        .ok (.ok ⟨"f(function () \x7b\x7d)", 1, 0⟩) ∧
      sanitizeWith Script.grammar Script.grammar {}
          ("f(function () \x7b\x7d)".toList.map (·.toNat)) "a.js" =
        .ok (.ok ⟨"f(function () \x7b\x7d)", 0, 0⟩) := by
  have hasks : AsksFor "f(console.log)" "f(function () \x7b\x7d)"
      ⟨⟨2, 13, emptyFunction⟩, .removeDiagnosticCall⟩ := by decide +kernel
  have hagain : (Script.grammar.parse "a.js" (Text.encode "f(function () \x7b\x7d)")).isOk = true ∧
      Scope.KeysTell (Text.encode "f(function () \x7b\x7d)") (treeOf "f(function () \x7b\x7d)") ∧
      isLeftOf (Text.encode "f(console.log)") (Text.encode "f(function () \x7b\x7d)") {}
        ⟨treeOf "f(console.log)", []⟩ (treeOf "f(function () \x7b\x7d)") = true ∧
      KeepsVariables (Text.encode "f(console.log)") {} (treeOf "f(console.log)") := by
    decide +kernel
  refine ⟨hasks.sanitizeWith_eq, (sanitized_again hasks.sanitizeWith_eq ?_ ?_).1⟩
  · intro rest hrest
    obtain rfl := Except.ok.inj ((parse_treeOf hagain.1).symm.trans hrest)
    exact hagain.2.1
  · intro source root rest hsource hroot hrest _
    obtain rfl := Option.some.inj ((Text.encode?_toNat _).symm.trans hsource)
    obtain rfl := Except.ok.inj ((parse_treeOf hasks.1).symm.trans hroot)
    obtain rfl := Except.ok.inj ((parse_treeOf hagain.1).symm.trans hrest)
    exact ⟨hagain.2.2.1, hagain.2.2.2⟩

/-- **The second time removes more**: the removed statement kept a name and a list apart, which are
then read as a diagnostic reference. -/
theorem sanitized_again_differs :
    sanitizeWith Script.grammar Script.grammar {}
        ("console\nconsole.a;[\"a\"]\nf".toList.map (·.toNat)) "a.js" =
          .ok (.ok ⟨"console\n[\"a\"]\nf", 1, 0⟩) ∧
      sanitizeWith Script.grammar Script.grammar {}
        ("console\n[\"a\"]\nf".toList.map (·.toNat)) "a.js" = .ok (.ok ⟨"f", 1, 0⟩) := by
  have hfirst : AsksFor "console\nconsole.a;[\"a\"]\nf" "console\n[\"a\"]\nf"
      ⟨⟨8, 18, ""⟩, .removeDiagnosticCall⟩ := by decide +kernel
  have hsecond : AsksFor "console\n[\"a\"]\nf" "f" ⟨⟨0, 13, ""⟩, .removeDiagnosticCall⟩ := by
    decide +kernel
  exact ⟨hfirst.sanitizeWith_eq, hsecond.sanitizeWith_eq⟩

end ScriptScrub.Sanitizer
