import Mathlib.Algebra.Ring.Nat
import ScriptScrub.Batch.Report
import ScriptScrub.Proofs.Text.Markup

/-!
# Failures in a report

The mark in front of the line about a failure is the only markup that is meant (`plainLine_marked`),
but the path and the message behind it are read for markup as well. So a report shows its failures
as they are exactly if nothing in them is taken for markup (`report_shows_failures`): a path such as
`[id].js` loses its name, and one such as `[/id].js` breaks the report off
(`report_takes_for_markup`).
-/

namespace ScriptScrub

namespace Text

/-- **The mark in front of a line** is shown as a letter, and the text after it as if it were alone,
but for the place of its tabs. -/
theorem plainLine_marked (text : String) (pictures : Pictures) :
    plainLine ("[red]x[/red] " ++ text) pictures =
      (unmarked [] (markupPieces text.toList)).map fun runs =>
        "x " ++ String.ofList (shownFrom pictures 2 runs) := by
  have hopen : tagPiece ['r', 'e', 'd'] = .opening "red" := by decide +kernel
  have hclose : tagPiece ['/', 'r', 'e', 'd'] = .closing (some "red") := by decide +kernel
  have hpieces : markupPieces ("[red]x[/red] " ++ text).toList =
      .cut :: .opening "red" :: .char 'x' :: .cut :: .closing (some "red") :: .char ' ' ::
        markupPieces text.toList := by
    have hopening : ∀ cs, tagAt? ('[' :: 'r' :: 'e' :: 'd' :: ']' :: cs) =
        some (['r', 'e', 'd'], cs) := fun _ => rfl
    have hclosing : ∀ cs, tagAt? ('[' :: '/' :: 'r' :: 'e' :: 'd' :: ']' :: cs) =
        some (['/', 'r', 'e', 'd'], cs) := fun _ => rfl
    rw [String.toList_append]
    change markupPieces ('[' :: 'r' :: 'e' :: 'd' :: ']' :: 'x' :: '[' :: '/' :: 'r' :: 'e' ::
      'd' :: ']' :: ' ' :: text.toList) = _
    rw [markupPieces_of_tag (hopening _), markupPieces_of_char (by decide) (by decide),
      markupPieces_of_tag (hclosing _), markupPieces_of_char (by decide) (by decide), hopen, hclose]
  have hshown : ∀ runs : List (List Char),
      shownFrom pictures 0 ([] :: [] :: ['x'] :: [] :: (' ' :: runs.headD []) :: runs.tail) =
        'x' :: ' ' :: shownFrom pictures 2 runs := by
    intro runs
    have hruns : ([] :: [] :: ['x'] :: [] :: (' ' :: runs.headD []) :: runs.tail).flatMap
        (pictured pictures) = 'x' :: ' ' :: runs.flatMap (pictured pictures) := by
      have hempty : pictured pictures [] = [] := by rw [pictured, runPieces, List.flatMap_nil]
      have hrest : pictured pictures (runs.headD []) ++ runs.tail.flatMap (pictured pictures) =
          runs.flatMap (pictured pictures) := by
        cases runs with
        | nil => exact (List.append_nil _).trans hempty
        | cons run runs => rfl
      simp only [List.flatMap_cons, hempty, pictured_cons (by decide : 'x' ≠ ':'),
        pictured_cons (by decide : ' ' ≠ ':'), List.nil_append, List.cons_append, hrest]
    rw [shownFrom, hruns]
    rfl
  rw [plainLine, hpieces]
  cases hruns : unmarked [] (markupPieces text.toList) with
  | error fault => simp [unmarked, hruns, Except.map]
  | ok runs =>
    have hall : unmarked [] (.cut :: .opening "red" :: .char 'x' :: .cut :: .closing (some "red") ::
        .char ' ' :: markupPieces text.toList) =
          .ok ([] :: [] :: ['x'] :: [] :: (' ' :: runs.headD []) :: runs.tail) := by
      simp [unmarked, hruns, Except.map]
    have hletter : ∀ cs, String.ofList ('x' :: ' ' :: cs) = "x " ++ String.ofList cs := by
      intro cs
      rw [← String.toList_inj]
      simp
    rw [hall]
    change Except.ok (String.ofList (shownFrom pictures 0 _)) = Except.ok _
    rw [hshown, hletter]

end Text

namespace Batch

open Text (Pictures Verbatim weight)

/-- How many special characters there are in lines that are printed. -/
theorem weight_printed (lines : List String) :
    weight (printed lines).toList = (lines.map fun line => weight line.toList).sum := by
  rw [printed]
  induction lines with
  | nil => rfl
  | cons line lines ih =>
      rw [List.map_cons, String.join_cons, String.toList_append, Text.weight_append, ih,
        String.toList_append, Text.weight_append, List.map_cons, List.sum_cons]
      rfl

/-- Lines that are printed after others. -/
theorem printed_append (lines more : List String) :
    printed (lines ++ more) = printed lines ++ printed more := by
  rw [printed, List.map_append, String.join_append]
  rfl

/-- The line about a failure that is shown as it is. -/
def verbatimLine (failure : String) : String := s!"x {failure}"

variable {pictures : Pictures}

/-- Failures that are shown as they are have a line each. -/
theorem failureLines_eq {failures : List String}
    (h : ∀ failure ∈ failures, Verbatim pictures failure.toList) :
    failureLines pictures failures = (failures.map verbatimLine, none) := by
  induction failures with
  | nil => rfl
  | cons failure failures ih =>
      rw [List.forall_mem_cons] at h
      obtain ⟨hruns, hshown⟩ := h.1.shown 2
      have hline : Text.plainLine (failureLine failure) pictures = .ok (verbatimLine failure) := by
        change Text.plainLine ("[red]x[/red] " ++ failure) pictures = _
        rw [Text.plainLine_marked, hruns]
        change Except.ok ("x " ++ String.ofList (Text.shownFrom pictures 2 _)) = _
        rw [hshown, String.ofList_toList]
        rfl
      rw [failureLines, hline, ih h.2, List.map_cons]

/-- **The lines about failures** have no more special characters than the failures, and if they have
as many all failures are shown as they are. -/
theorem weight_failureLines (hplain : pictures.Plain) {failures lines : List String}
    (h : failureLines pictures failures = (lines, none)) :
    (lines.map fun line => weight line.toList).sum ≤
        ((failures.map verbatimLine).map fun line => weight line.toList).sum ∧
      ((lines.map fun line => weight line.toList).sum =
          ((failures.map verbatimLine).map fun line => weight line.toList).sum →
        ∀ failure ∈ failures, Verbatim pictures failure.toList) := by
  induction failures generalizing lines with
  | nil =>
      cases h
      exact ⟨le_rfl, fun _ => nofun⟩
  | cons failure failures ih =>
      have hline : Text.plainLine (failureLine failure) pictures = _ :=
        Text.plainLine_marked failure pictures
      cases hruns : Text.unmarked [] (Text.markupPieces failure.toList) with
      | error fault =>
          rw [hruns] at hline
          rw [failureLines, hline] at h
          cases h
      | ok runs =>
          rw [hruns] at hline
          rw [failureLines, hline] at h
          rcases hrest : failureLines pictures failures with ⟨rest, fault⟩
          rw [hrest] at h
          cases h
          obtain ⟨hle, hverbatim⟩ := ih hrest
          obtain ⟨hfirst, hfirstVerbatim⟩ := Text.weight_shown hplain hruns 2
          have hmark : ∀ text : String, weight ("x " ++ text).toList = weight text.toList := by
            intro text
            rw [String.toList_append, Text.weight_append]
            exact Nat.zero_add _
          have hshown : weight ("x " ++ String.ofList (Text.shownFrom pictures 2 runs)).toList =
              weight (Text.shownFrom pictures 2 runs) := by
            rw [hmark, String.toList_ofList]
          have hwhole : weight (verbatimLine failure).toList = weight failure.toList :=
            hmark failure
          rw [List.map_cons, List.map_cons, List.map_cons, List.sum_cons, List.sum_cons, hshown,
            hwhole]
          refine ⟨Nat.add_le_add hfirst hle, fun heq => List.forall_mem_cons.2 ⟨?_, ?_⟩⟩
          · exact hfirstVerbatim (by omega)
          · exact hverbatim (by omega)

/-- **A report shows the failures as they are**, one below the other after the table and without
breaking off, exactly if none of them is taken for markup: there is no tag, no bracket with a
backslash in front, no name of a picture, no tab and no control character in what is told of a
failed file. -/
theorem report_shows_failures (hplain : pictures.Plain) (stats : Stats) (files : List FileReport)
    (dryRun : Bool) :
    report stats files dryRun pictures =
        (printed ((summary stats dryRun).lines ++
          (files.filterMap FileReport.failure?).map verbatimLine), none) ↔
      ∀ file ∈ files, ∀ failure, file.failure? = some failure →
        Verbatim pictures failure.toList := by
  have hfailures : (∀ file ∈ files, ∀ failure, file.failure? = some failure →
      Verbatim pictures failure.toList) ↔
        ∀ failure ∈ files.filterMap FileReport.failure?, Verbatim pictures failure.toList := by
    rw [List.forall_mem_filterMap]
  rw [hfailures, report]
  constructor
  · intro h
    rcases hlines : failureLines pictures (files.filterMap FileReport.failure?) with ⟨lines, fault⟩
    rw [hlines, Prod.mk.injEq] at h
    obtain ⟨hprinted, rfl⟩ := h
    -- Both texts begin with the table, so they have as many special characters after it.
    have hweight := congrArg (fun text : String => weight text.toList) hprinted
    simp only [printed_append, String.toList_append, Text.weight_append, weight_printed,
      Nat.add_left_cancel_iff] at hweight
    exact (weight_failureLines hplain hlines).2 hweight
  · intro h
    rw [failureLines_eq h]

/-- A file with a script that is broken at its start. -/
def brokenFile (path : String) : FileReport where
  path := path
  status := .errored
  error := some { path, kind := .parse, message := "Unexpected token", line := some 1 }

/-- A console with the picture of a cross. -/
def crossPicture : Pictures := fun name => if name = "x" then some "\u274C" else none

/-- The picture is nothing else than a picture. -/
theorem plain_crossPicture : crossPicture.Plain := by
  intro name picture h
  rw [crossPicture] at h
  split at h
  · cases h
    decide +kernel
  · cases h

/-- Brackets around a digit are no tag, and a name between colons need not have a picture. -/
theorem report_shows_failures_brackets :
    crossPicture.Plain ∧
      (∀ file ∈ [brokenFile "[1]:q:.js"], ∀ failure, file.failure? = some failure →
        Verbatim crossPicture failure.toList) ∧
      report {} [brokenFile "[1]:q:.js"] false crossPicture =
        (printed ((summary {} false).lines ++ ["x [1]:q:.js: Unexpected token (line 1)"]),
          none) := by
  have hreport : report {} [brokenFile "[1]:q:.js"] false crossPicture =
      (printed ((summary {} false).lines ++ ["x [1]:q:.js: Unexpected token (line 1)"]), none) := by
    decide +kernel
  exact ⟨plain_crossPicture,
    (report_shows_failures plain_crossPicture {} [brokenFile "[1]:q:.js"] false).1 hreport, hreport⟩

/-- **A name in brackets** is taken for a tag and is not shown. If it begins with a slash the report
breaks off there, and a name between colons can be taken for a picture. -/
theorem report_takes_for_markup :
    report {} [brokenFile "[id].js"] false =
        (printed ((summary {} false).lines ++ ["x .js: Unexpected token (line 1)"]), none) ∧
    report {} [brokenFile "[/id].js", brokenFile "a.js"] false =
        (printed (summary {} false).lines, some {}) ∧
    report {} [brokenFile "a:x:.js"] false crossPicture =
        (printed ((summary {} false).lines ++ ["x a\u274C.js: Unexpected token (line 1)"]),
          none) := by
  decide +kernel

end Batch

end ScriptScrub
