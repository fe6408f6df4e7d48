import ScriptScrub.Proofs.Sanitizer.Fresh

/-!
# The stack that a text is sanitized on

Looking names up leaves behind how many calls collecting them took (`Scope.Index.depth`). If the
stack has room for every node of the tree (`Scope.Room.Suffices`) the walk ends within it
(`holds_walked`); a walk that asks for the names of a node takes at least what the node does
(`Scope.Index.took_anyDeclares`, `keeps_walked`). Sanitizing breaks down on a stack that is too
small, and any other stack is as good as an endless one (`sanitizeBy_overflows_or_eq`).
-/

namespace ScriptScrub

namespace Scope

/-! ## Rooms -/

/-- The stack has room for collecting the names of every node of the tree. -/
def Room.Suffices (room : Room) (source : Bytes) (root : Node) : Prop :=
  ∀ n ∈ root.preorder, room.holds (declaredDepth source n) = true

instance (room : Room) (source : Bytes) (root : Node) : Decidable (room.Suffices source root) :=
  inferInstanceAs (Decidable (∀ n ∈ root.preorder, room.holds (declaredDepth source n) = true))

/-- An endless stack has room for everything. -/
theorem Room.suffices_endless (source : Bytes) (root : Node) :
    Room.endless.Suffices source root := fun _ _ => rfl

/-- A stack that has room for two numbers of calls has room for the greater. -/
theorem Room.holds_max {room : Room} {d e : Nat} (hd : room.holds d = true)
    (he : room.holds e = true) : room.holds (max d e) = true := by
  rcases Nat.le_total d e with h | h
  · rwa [Nat.max_eq_right h]
  · rwa [Nat.max_eq_left h]

/-! ## Looking names up -/

namespace Index

/-- Collecting the names that the index knows took at least so many calls. -/
def Took (calls : Nat) (index : Index) : Prop := calls ≤ index.depth

variable {source : Bytes} {I : Index → Prop}

/-- What collecting the names of some nodes keeps is kept if they are searched. -/
theorem keeps_anyDeclares (name : String) {ns : List Node}
    (h : ∀ n ∈ ns, Keeps I (names source n)) : Keeps I (anyDeclares source name ns) := by
  induction ns with
  | nil => exact .pure false
  | cons n ns ih =>
      rw [anyDeclares]
      refine (h n List.mem_cons_self).bind fun known => ?_
      split
      · exact .pure true
      · exact ih fun m hm => h m (List.mem_cons_of_mem _ hm)

/-- Collecting the names of a node that the stack has room for stays within the stack. -/
theorem keeps_holds {room : Room} {n : Node} (h : room.holds (declaredDepth source n) = true) :
    Keeps (fun index => room.holds index.depth = true) (names source n) := by
  intro index hindex
  cases hn : index.known[Key.of n]? with
  | some known =>
      rw [run_names_of_known source hn]
      exact hindex
  | none =>
      rw [run_names_of_unknown source hn]
      exact Room.holds_max hindex h

/-- The calls that were open once stay counted. -/
theorem keeps_took (calls : Nat) (n : Node) : Keeps (Took calls) (names source n) := by
  intro index hindex
  cases hn : index.known[Key.of n]? with
  | some known =>
      rw [run_names_of_known source hn]
      exact hindex
  | none =>
      rw [run_names_of_unknown source hn]
      exact Nat.le_trans hindex (Nat.le_max_left _ _)

/-- **A search that comes to a node takes at least what the node does**: none of the nodes before
it declares the name, and the index knows neither them nor the node. -/
theorem took_anyDeclares {name : String} (before after : List Node) {n : Node} {index : Index}
    (hbefore : ∀ m ∈ before, name ∉ declaredNames source m)
    (hkeys : ((before ++ [n]).map Key.of).Nodup)
    (hnew : ∀ m ∈ before ++ [n], index.known[Key.of m]? = none) :
    Took (declaredDepth source n)
      ((anyDeclares source name (before ++ n :: after)).run index).2 := by
  induction before generalizing index with
  | nil =>
      rw [List.nil_append, anyDeclares]
      refine Keeps.after (I := Took _) (fun known => ?_) ?_
      · split
        · exact .pure true
        · exact keeps_anyDeclares name fun m _ => keeps_took _ m
      · rw [run_names_of_unknown source (hnew n (List.mem_singleton_self n))]
        exact Nat.le_max_right _ _
  | cons m before ih =>
      rw [List.cons_append, anyDeclares, StateT.run_bind,
        run_names_of_unknown source (hnew m List.mem_cons_self)]
      obtain ⟨hm, hbefore⟩ := List.forall_mem_cons.1 hbefore
      rw [List.cons_append, List.map_cons, List.nodup_cons] at hkeys
      change Took _ ((if _ then _ else _ : StateM Index Bool).run _).2
      rw [if_neg (by simpa using hm)]
      refine ih hbefore hkeys.2 fun k hk => ?_
      have hother : (Key.of m == Key.of k) = false := beq_eq_false_iff_ne.2 fun h =>
        hkeys.1 (h ▸ List.mem_map_of_mem hk)
      rw [Std.HashMap.getElem?_insert, hother]
      exact hnew k (List.mem_cons_of_mem _ hk)

end Index

end Scope

namespace Sanitizer

open Config (SanitizerSettings)

/-! ## The walk -/

/-- A walk keeps what asking at its places keeps. -/
theorem Walks.keeps {σ α : Type} {ask : Place → StateM σ (Option α)} {I : σ → Prop}
    {ps : List Place} {s u : σ} {vs : List (Visit α)} (h : Walks ask ps s vs u)
    (hask : ∀ q ∈ ps.flatMap Place.preorder, Keeps I (ask q)) (hs : I s) : I u := by
  induction h with
  | done => exact hs
  | @hit p ps s t _ _ _ hrun _ ih =>
      have hself : p ∈ (p :: ps).flatMap Place.preorder :=
        List.mem_flatMap.2 ⟨p, List.mem_cons_self, Place.mem_preorder_iff.2 (.inl rfl)⟩
      have ht := hask p hself s hs
      rw [hrun] at ht
      exact ih (fun q hq => hask q (List.mem_append_right _ hq)) ht
  | @miss p ps s t _ _ hrun _ ih =>
      rw [List.flatMap_cons, Place.preorder_eq] at hask
      have ht := hask p List.mem_cons_self s hs
      rw [hrun] at ht
      refine ih (fun q hq => hask q ?_) ht
      rw [List.flatMap_append] at hq
      exact List.mem_cons_of_mem _ hq

/-- So do the visits to a place. -/
theorem keeps_visitFrom {σ α : Type} {ask : Place → StateM σ (Option α)} {I : σ → Prop} (p : Place)
    (hask : ∀ q ∈ p.preorder, Keeps I (ask q)) : Keeps I (visitFrom ask p.above p.node) := by
  intro s hs
  refine (walks_visitFrom p s .done).keeps (fun q hq => hask q ?_) hs
  rwa [List.flatMap_singleton] at hq

section
variable {source : Bytes} {settings : SanitizerSettings} {root : Node} {I : Scope.Index → Prop}

/-- Matching keeps what collecting the names of all nodes of the tree keeps. -/
theorem keeps_match? (h : ∀ n ∈ root.preorder, Keeps I (Scope.Index.names source n)) {p : Place}
    (hp : p ∈ Place.all root) :
    Keeps I (match? source settings (Scope.Index.isBound source) p) := by
  have hlookup : ∀ o, p.Below o →
      KeepsBeside I Bool (Scope.Index.isBound source o) (afresh source o) := fun o ho =>
    Scope.Index.keeps_anyDeclares _ fun n hn =>
      h n (Place.mem_preorder_of_mem_ancestors (ho.mem_all hp) hn)
  exact lockstep_match? (lockstep_keeps I) hlookup

/-- A walk that begins with a state in which `I` holds after asking at its first place comes to one
in which `I` holds. -/
theorem Walks.keeps_after {σ α : Type} {ask : Place → StateM σ (Option α)} {I : σ → Prop}
    {p : Place} {ps : List Place} {s u : σ} {vs : List (Visit α)} (h : Walks ask (p :: ps) s vs u)
    (hask : ∀ q, Keeps I (ask q)) (hp : I ((ask p).run s).2) : I u := by
  cases h with
  | hit hrun hps | miss hrun hps =>
      rw [hrun] at hp
      exact hps.keeps (fun q _ => hask q) hp

/-- The index that a walk leaves behind is that of its visits. -/
theorem walked_snd :
    (walked source settings root).2 =
      ((visitFrom (match? source settings (Scope.Index.isBound source)) [] root).run {}).2 := by
  rw [walked, collect, collectStack_eq, visitEach_singleton]
  rfl

/-- **The walk keeps** what collecting the names of all nodes of the tree keeps. -/
theorem keeps_walked (h : ∀ n ∈ root.preorder, Keeps I (Scope.Index.names source n)) (h₀ : I {}) :
    I (walked source settings root).2 := by
  rw [walked_snd]
  exact keeps_visitFrom ⟨root, []⟩ (fun _ hq => keeps_match? h hq) {} h₀

variable {room : Scope.Room}

/-- **The walk ends within a stack** that has room for every node of the tree. -/
theorem holds_walked (h : room.Suffices source root) :
    room.holds (walked source settings root).2.depth = true :=
  keeps_walked (I := fun index => room.holds index.depth = true)
    (fun n hn => Scope.Index.keeps_holds (h n hn)) (by cases room <;> rfl)

/-! ## Sanitizing -/

variable {first again : Parser} {text : List CodePoint} {path : String}

/-- Rewriting a tree on an endless stack. -/
theorem rewriteTree_eq : rewriteTree again settings path source root =
    match Edit.spliced? source ((editsOf source settings root).map (·.toEdit)) with
    | none => .error .editOutOfRange
    | some output =>
      match checkOutput again path (editsOf source settings root) output with
      | .error e => .ok (.error e)
      | .ok () =>
        match Text.decode? output with
        | none => .error .outputNotText
        | some code =>
          let calls := (editsOf source settings root).countP fun e => e.rule = .removeDiagnosticCall
          .ok (.ok ⟨code, calls, (editsOf source settings root).length - calls⟩) := rfl

/-- Rewriting a tree overflows a stack that the walk does not end within, and on any other stack it
comes to what it does on an endless one. -/
theorem rewriteTree_room : rewriteTree again settings path source root room =
    if room.holds (walked source settings root).2.depth then
      rewriteTree again settings path source root
    else .error .stackOverflow := by
  rw [rewriteTree]
  dsimp only
  cases room.holds (walked source settings root).2.depth <;> rfl

/-- A stack that has room for every node of a tree is as good as an endless one. -/
theorem rewriteTree_of_suffices (h : room.Suffices source root) :
    rewriteTree again settings path source root room =
      rewriteTree again settings path source root := by
  rw [rewriteTree_room, if_pos (holds_walked h)]

/-- **A stack overflows or makes no difference**, and one that has room for every node of the tree
does not overflow. -/
theorem sanitizeBy_overflows_or_eq (room : Scope.Room) :
    (sanitizeBy first again settings text path room = .error .stackOverflow ∧
      ∃ source root, Text.encode? text = some source ∧ first path source = .ok root ∧
        ¬ room.Suffices source root) ∨
    sanitizeBy first again settings text path room =
      sanitizeBy first again settings text path := by
  rw [sanitizeBy, sanitizeBy]
  cases hsource : Text.encode? text with
  | none => exact .inr rfl
  | some source =>
      dsimp only
      cases hroot : first path source with
      | error e => exact .inr rfl
      | ok root =>
          dsimp only
          by_cases hroom : room.Suffices source root
          · exact .inr (rewriteTree_of_suffices hroom)
          rw [rewriteTree_room]
          split
          · exact .inr rfl
          · exact .inl ⟨rfl, source, root, rfl, hroot, hroom⟩

end

end Sanitizer

end ScriptScrub
