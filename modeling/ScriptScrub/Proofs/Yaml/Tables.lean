import ScriptScrub.Proofs.Config.Entries
import ScriptScrub.Proofs.Result
import ScriptScrub.Yaml.Document

/-!
# The tables of a document

The entries of a table are put under their keys one after the other, so no name comes twice in it,
and each of its values is that of some part of the document, or of one that is merged in
(`table_of_value`). So no name comes twice in a table that is the whole document, and none in a
table that is one of its values (`distinct_of_read`).
-/

namespace ScriptScrub.Yaml

open Config (Value Entries)

/-- Each of the values is that of some part of a document. -/
def FromParts (es : List (Value × Value)) : Prop := ∀ e ∈ es, ∃ n, Node.value n = .ok e.2

/-- Values of two lists. -/
theorem FromParts.append {es es' : List (Value × Value)} (h : FromParts es) (h' : FromParts es') :
    FromParts (es ++ es') := fun e he =>
  (List.mem_append.1 he).elim (h e) (h' e)

/-- **The values of entries** are those of parts, whether they are merged in or not. -/
theorem fromParts_of_pairsOf {es : List (Node × Node)} {merged own : List (Value × Value)}
    (h : Node.pairsOf es = .ok (merged, own)) : FromParts (merged ++ own) := by
  revert merged own
  refine Node.pairsOf.induct (fun _ => True)
    (fun es => ∀ {merged own}, Node.pairsOf es = .ok (merged, own) → FromParts (merged ++ own))
    (fun n => ∀ {more}, Node.mergedOf n = .ok more → FromParts more)
    (fun ns => ∀ {more}, Node.mergedAll ns = .ok more → FromParts more)
    (fun _ => True) (fun _ _ => trivial) (fun _ _ _ => trivial) (fun _ _ _ => trivial) trivial
    ?table ?tables ?noTable ?nil ?cons ?noTables trivial (fun _ _ _ _ => trivial) ?none ?merge ?own
    es
  case table =>
    intro tag es ih more h
    rw [Node.mergedOf] at h
    obtain ⟨⟨merged, own⟩, hes, h⟩ := bind_eq_ok.1 h
    cases h
    exact ih hes
  case tables =>
    intro tag ns ih more h
    exact ih h
  case noTable =>
    intro n hkeys hitems more h
    rw [Node.mergedOf] at h
    · cases h
    · exact hkeys
    · exact hitems
  case nil =>
    intro more h
    cases h
    exact nofun
  case cons =>
    intro tag es ns ih ihns more h
    rw [Node.mergedAll] at h
    obtain ⟨⟨merged, own⟩, hes, h⟩ := bind_eq_ok.1 h
    obtain ⟨others, hns, h⟩ := bind_eq_ok.1 h
    cases h
    exact (ihns hns).append (ih hes)
  case noTables =>
    intro n ns hkeys more h
    rw [Node.mergedAll] at h
    · cases h
    · exact hkeys
  case none =>
    intro merged own h
    cases h
    exact nofun
  case merge =>
    intro k v rest hmerge ihv ih merged own h
    rw [Node.pairsOf, if_pos hmerge] at h
    obtain ⟨more, hv, h⟩ := bind_eq_ok.1 h
    obtain ⟨⟨merged', own'⟩, hrest, h⟩ := bind_eq_ok.1 h
    cases h
    rw [List.append_assoc]
    exact (ihv hv).append (ih hrest)
  case own =>
    intro k v rest hmerge _ ih merged own h
    rw [Node.pairsOf, if_neg hmerge] at h
    obtain ⟨key, -, h⟩ := bind_eq_ok.1 h
    obtain ⟨value, hvalue, h⟩ := bind_eq_ok.1 h
    obtain ⟨⟨merged', own'⟩, hrest, h⟩ := bind_eq_ok.1 h
    cases h
    intro e he
    rcases List.mem_append.1 he with he | he
    · exact ih hrest e (List.mem_append_left _ he)
    · rcases List.mem_cons.1 he with rfl | he
      · exact ⟨v, hvalue⟩
      · exact ih hrest e (List.mem_append_right _ he)

/-- Each value after one was put under a key is this one or was there before. -/
theorem FromParts.put {es : Entries} (h : FromParts es) {key value : Value}
    (hvalue : ∃ n, Node.value n = .ok value) : FromParts (es.put key value) := by
  induction es with
  | nil => exact fun e he => List.mem_singleton.1 he ▸ hvalue
  | cons e es ih =>
      obtain ⟨hfirst, hrest⟩ := List.forall_mem_cons.1 h
      rw [Entries.put]
      split
      · exact List.forall_mem_cons.2 ⟨hvalue, hrest⟩
      · exact List.forall_mem_cons.2 ⟨hfirst, ih hrest⟩

/-- No name comes twice in a table to which entries were put one after the other, and each value is
that of a part if all of them are. -/
theorem foldl_put {es : List (Value × Value)} {t : Entries} (hes : FromParts es) (ht : FromParts t)
    (hdistinct : t.Distinct) : FromParts (es.foldl (fun t e => Entries.put t e.1 e.2) t) ∧
      Entries.Distinct (es.foldl (fun t e => Entries.put t e.1 e.2) t) := by
  induction es generalizing t with
  | nil => exact ⟨ht, hdistinct⟩
  | cons e es ih =>
      obtain ⟨hfirst, hrest⟩ := List.forall_mem_cons.1 hes
      exact ih hrest (ht.put hfirst) (hdistinct.put _ _)

/-- No scalar is a table. -/
theorem scalarValue_ne_table (text : String) (tag : Tag) (es : Entries) :
    scalarValue text tag ≠ .ok (.table es) := by
  intro h
  cases tag with
  | flag | whole | number =>
      rw [scalarValue, map_eq_ok] at h
      obtain ⟨_, -, h⟩ := h
      cases h
  | date =>
      rw [scalarValue, dateOf] at h
      split at h
      · cases h
      · split at h <;> cases h
  | _ => cases h

/-- **A table** has no name twice, and its values are those of parts. -/
theorem table_of_value {n : Node} {es : Entries} (h : n.value = .ok (.table es)) :
    es.Distinct ∧ FromParts es := by
  cases n with
  | scalar tag text =>
      rw [Node.value] at h
      exact absurd h (scalarValue_ne_table text tag es)
  | items tag ns =>
      rw [Node.value] at h
      obtain ⟨vs, -, h⟩ := bind_eq_ok.1 h
      split at h <;> cases h
  | keys tag entries =>
      rw [Node.value] at h
      obtain ⟨⟨merged, own⟩, hentries, h⟩ := bind_eq_ok.1 h
      dsimp only at h
      split at h
      · cases h
        have hnone : FromParts [] := fun e he => absurd he List.not_mem_nil
        exact (foldl_put (fromParts_of_pairsOf hentries) hnone trivial).symm
      · cases h
      · cases h
      · cases h
  | cycle =>
      rw [Node.value] at h
      cases h

/-- **No name comes twice in a document**, nor in a table that is one of its values. -/
theorem distinct_of_read {text : List Char} {es : Entries} (h : read text = .ok (.table es)) :
    es.Distinct ∧ ∀ key fields, (key, .table fields) ∈ es → Entries.Distinct fields := by
  rw [read] at h
  obtain ⟨tokens, -, h⟩ := bind_eq_ok.1 h
  obtain ⟨n, -, h⟩ := bind_eq_ok.1 h
  cases n with
  | none => cases h
  | some n =>
      obtain ⟨hdistinct, hparts⟩ := table_of_value h
      refine ⟨hdistinct, fun key fields hmem => ?_⟩
      obtain ⟨m, hm⟩ := hparts _ hmem
      exact (table_of_value hm).1

/-- A text is read as a value if what it is read as is the same. -/
theorem read_of_same {text : List Char} {v : Value}
    (h : (read text).toOption.any (·.same v) = true) : read text = .ok v := by
  cases hread : read text with
  | error f =>
      rw [hread] at h
      cases h
  | ok w =>
      rw [hread] at h
      rw [Value.eq_of_same h]

end ScriptScrub.Yaml
