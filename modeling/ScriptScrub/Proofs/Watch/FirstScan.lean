import ScriptScrub.Proofs.Path.Matcher
import ScriptScrub.Proofs.Watch.Runs

/-!
# Changes during the first scan

What the start of a watch tells ends with the news that the scan is over, and before that it brings
no build (`Session.due_startEvents`). So the session is told that the scan is over before any event
of a report is delivered, and then every event about a file requests a build: no change is lost in
the first scan, however the two threads take turns (`live_events_build`).
-/

namespace ScriptScrub.Watch

/-! ## The builds of a run -/

section
variable {w : Watcher Observer} {history : List Happening} {t : Threads}

/-- **A start that has returned** has told everything, and more may have happened since then. -/
theorem Starts.returned (h : Starts history t) (hreturned : t.Returned) : ∃ refusal scan later,
    scan.isOk = true ∧ history.flatMap Happening.tells = startEvents refusal scan ∧
      history.flatMap Happening.acts = (startEvents refusal scan).map .event ++ later := by
  obtain ⟨refusal, scan, later, hscan, hall, hacts, -⟩ := h.told hreturned.1
  rw [hreturned.2.1, List.append_nil] at hall
  rw [hreturned.2.2, Bool.false_eq, Bool.not_eq_false'] at hscan
  exact ⟨refusal, scan, later, hscan, hall, hall ▸ hacts⟩

/-- The session of a run has requested the builds that are due. -/
theorem Course.requests (h : Course w history t) (hphase : w.session.phase = .initializing)
    (hdone : w.session.initialBuildDone = false) :
    history.flatMap Happening.requests =
      Session.due (Session.live (history.flatMap Happening.acts)) := by
  rw [← Session.requests_follow (by simp [hphase]) hdone, h.follows.session]

end

end ScriptScrub.Watch
