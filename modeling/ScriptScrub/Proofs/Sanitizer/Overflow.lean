import ScriptScrub.Proofs.Sanitizer.Remainder
import ScriptScrub.Proofs.Sanitizer.Total

/-!
# Texts that no stack has room for

A script that begins with a diagnostic call has its names collected, for the object of the call is
looked up in it (`le_depth_callFirst`). A pattern that is nested deep enough in the rest of the
script then takes more calls than there is room for (`patternDepth_nested`): for every stack there
is a script whose tree fits it and on which sanitizing breaks down (`sanitizeBy_deepScript`).
-/

namespace ScriptScrub

namespace Sanitizer

open Config (SanitizerSettings)
open Scope (declaredDepth patternDepth)
open Scope.Index (Took)

/-! ## A call at the head of a script -/

/-- The name of the object in `console.log(1);`. -/
def headObject : Node where
  kind := "identifier"
  start := 0
  stop := 7
  field := some "object"

/-- The name of its method. -/
def headMethod : Node where
  kind := "property_identifier"
  start := 8
  stop := 11
  field := some "property"

/-- What is called. -/
def headCallee : Node where
  kind := "member_expression"
  start := 0
  stop := 11
  field := some "function"
  children := [headObject, { kind := ".", start := 7, stop := 8, named := false }, headMethod]

/-- The call. -/
def headCall : Node where
  kind := "call_expression"
  start := 0
  stop := 14
  children := [headCallee,
    { kind := "arguments", start := 11, stop := 14, children := [
      { kind := "(", start := 11, stop := 12, named := false },
      { kind := "number", start := 12, stop := 13 },
      { kind := ")", start := 13, stop := 14, named := false }] }]

/-- The statement that it stands in. -/
def headStatement : Node where
  kind := "expression_statement"
  start := 0
  stop := 15
  children := [headCall, { kind := ";", start := 14, stop := 15, named := false }]

/-- A script that begins with the statement. -/
def callFirst (stop : Nat) (rest : List Node) : Node where
  kind := "program"
  start := 0
  stop
  children := headStatement :: rest

/-- The characters of the statement. -/
def headChars : List Char := "console.log(1);".toList

/-- Its bytes. -/
def headBytes : Bytes := Text.encodeChars headChars

/-- A node in the first part of a source covers the text that it covers there. -/
theorem text_append {n : Node} {first : Bytes} (h : n.stop ≤ first.length) (more : Bytes) :
    n.text (first ++ more) = n.text first := by
  rw [Node.text, Node.bytes, List.take_append_of_le_length h]
  rfl

section
variable (stop : Nat) (rest : List Node) (more : Bytes)

/-- The way from the statement up. -/
def aboveHead : List (Node × Nat) := [(callFirst stop rest, 0)]

/-- The place of the call. -/
def callPlace : Place := ⟨headCall, (headStatement, 0) :: aboveHead stop rest⟩

/-- The place of what is called. -/
def calleePlace : Place := (callPlace stop rest).down 0 headCallee

/-- The place of the object. -/
def objectPlace : Place := (calleePlace stop rest).down 0 headObject

variable {stop rest more}

/-- Reading the reference asks for its object. -/
theorem referenceSeverity_calleePlace (bound : Place → StateM Scope.Index Bool) :
    referenceSeverity (headBytes ++ more) {} bound (calleePlace stop rest) =
      (do if ← bound (objectPlace stop rest) then pure none else pure (some "log")) := by
  have hmethod : headMethod.text (headBytes ++ more) = "log" := by
    rw [text_append (by decide)]
    decide +kernel
  have hobject : headObject.text (headBytes ++ more) = "console" := by
    rw [text_append (by decide)]
    decide +kernel
  have haccess : access? (headBytes ++ more) (calleePlace stop rest) =
      some (objectPlace stop rest, "log") := by
    rw [← hmethod]
    rfl
  rw [referenceSeverity, haccess]
  change (if (true && ["console"].contains (headObject.text (headBytes ++ more))) = true then _
    else _) = _
  rw [hobject]
  rfl

/-- Looking the object up takes at least what the whole script does. -/
theorem took_objectPlace (source : Bytes) :
    Took (declaredDepth source (callFirst stop rest))
      ((Scope.Index.isBound source (objectPlace stop rest)).run {}).2 := by
  refine Scope.Index.took_anyDeclares [headCallee, headCall, headStatement] [] (fun m hm => ?_) ?_
    fun m _ => Std.HashMap.getElem?_empty
  · simp only [List.mem_cons, List.not_mem_nil, or_false] at hm
    rcases hm with rfl | rfl | rfl <;> exact List.not_mem_nil
  · simp [Scope.Key.of, headCallee, headCall, headStatement, callFirst]

/-- Looking a name up keeps the calls counted that were open once. -/
theorem keepsBeside_isBound (source : Bytes) (calls : Nat) (o : Place) :
    KeepsBeside (Took calls) Bool (Scope.Index.isBound source o) (afresh source o) :=
  Scope.Index.keeps_anyDeclares _ fun n _ => Scope.Index.keeps_took calls n

/-- Reading the call takes at least what the whole script does. -/
theorem took_callSeverity {source : Bytes} (hsource : source = headBytes ++ more) :
    Took (declaredDepth source (callFirst stop rest))
      ((callSeverity source {} (Scope.Index.isBound source) (callPlace stop rest)).run {}).2 := by
  have hreference : Took (declaredDepth source (callFirst stop rest))
      ((referenceSeverity source {} (Scope.Index.isBound source) (calleePlace stop rest)).run
        {}).2 := by
    rw [hsource, referenceSeverity_calleePlace, ← hsource]
    refine Keeps.after (I := Took _) (fun isBound => ?_) (took_objectPlace source)
    cases isBound <;> exact .pure _
  refine Keeps.after (I := Took _) (fun severity => ?_) hreference
  cases severity with
  | some severity => exact .pure _
  | none =>
      dsimp only
      split
      · split
        · exact lockstep_referenceSeverity (lockstep_keeps _) fun o _ =>
            keepsBeside_isBound source _ o
        · exact .pure _
      · exact .pure _

/-- So does matching the statement. -/
theorem took_match? {source : Bytes} (hsource : source = headBytes ++ more) :
    Took (declaredDepth source (callFirst stop rest))
      ((match? source {} (Scope.Index.isBound source) ⟨headStatement, aboveHead stop rest⟩).run
        {}).2 := by
  have hcall : Took (declaredDepth source (callFirst stop rest))
      ((isRemovableCall source {} (Scope.Index.isBound source) (callPlace stop rest)).run
        {}).2 := by
    rw [isRemovableCall, StateT.run_map]
    exact took_callSeverity hsource
  have hexpression : Took (declaredDepth source (callFirst stop rest))
      ((isRemovableExpression source {} (Scope.Index.isBound source) (callPlace stop rest)).run
        {}).2 := by
    refine Keeps.after (I := Took _) (fun isCall => ?_) hcall
    cases isCall with
    | true => exact .pure true
    | false =>
        refine Keeps.bind (lockstep_isRemovableBind (lockstep_keeps _) fun o _ =>
          keepsBeside_isBound source _ o) fun isBind => ?_
        cases isBind with
        | true => exact .pure true
        | false =>
            exact lockstep_isDetachedReference (lockstep_keeps _) fun o _ =>
              keepsBeside_isBound source _ o
  refine Keeps.after (I := Took _) (fun removable => ?_) hexpression
  cases removable <;> exact .pure _

/-- **The walk over a script that begins with a call** takes at least what the script does. -/
theorem took_walked {source : Bytes} (hsource : source = headBytes ++ more) :
    Took (declaredDepth source (callFirst stop rest))
      (walked source {} (callFirst stop rest)).2 := by
  have hwalks : Walks (match? source {} (Scope.Index.isBound source)) [⟨callFirst stop rest, []⟩]
      ({} : Scope.Index) _ _ := walks_visitFrom ⟨callFirst stop rest, []⟩ ({} : Scope.Index) .done
  rw [walked_snd]
  have hkeeps : ∀ q, Keeps (Took (declaredDepth source (callFirst stop rest)))
      (match? source {} (Scope.Index.isBound source) q) := fun q =>
    lockstep_match? (lockstep_keeps _) fun o _ => keepsBeside_isBound source _ o
  have hchildren : (⟨callFirst stop rest, []⟩ : Place).children ++ [] =
      ⟨headStatement, aboveHead stop rest⟩ ::
        rest.mapIdx fun i n => Place.down ⟨callFirst stop rest, []⟩ (i + 1) n := by
    rw [List.append_nil, Place.children, callFirst, List.mapIdx_cons]
    rfl
  cases hwalks with
  | miss hrun hrest =>
      cases hrun
      rw [hchildren] at hrest
      exact hrest.keeps_after hkeeps (took_match? hsource)

end

/-! ## Deep patterns -/

/-- A name inside so many pairs of brackets. -/
def nested (field : Option String) (start : Nat) : Nat → Node
  | 0 => { kind := "identifier", start, stop := start + 1, field }
  | levels + 1 =>
    { kind := "array_pattern", start, stop := start + 2 * levels + 3, field, children := [
      { kind := "[", start, stop := start + 1, named := false },
      nested none (start + 1) levels,
      { kind := "]", start := start + 2 * levels + 2, stop := start + 2 * levels + 3,
        named := false }] }

/-- A nested name takes a call for each pair of brackets and one for itself. -/
theorem patternDepth_nested (field : Option String) (start levels : Nat) :
    patternDepth (nested field start levels) = levels + 1 := by
  induction levels generalizing field start with
  | zero => rfl
  | succ levels ih =>
      have hinner : (nested none (start + 1) levels).named = true := by cases levels <;> rfl
      rw [nested, patternDepth, if_pos (by decide)]
      simp [Scope.namedPatternDepth, hinner, ih]

/-- A nested name stands at its start, and each pair of brackets takes two more bytes. -/
theorem range_nested (field : Option String) (start levels : Nat) :
    (nested field start levels).start = start ∧
      (nested field start levels).stop = start + 2 * levels + 1 := by
  cases levels with
  | zero => exact ⟨rfl, rfl⟩
  | succ levels => exact ⟨rfl, show start + 2 * levels + 3 = _ by omega⟩

/-- The nodes of the tree nest, and none of them can be matched. -/
def IsQuiet (n : Node) : Prop := ∀ m ∈ n.preorder, m.Nests ∧ m.kind ∉ reactiveKinds

/-- A node is quiet if those below it are. -/
theorem isQuiet_of_children {n : Node} (hn : n.Nests) (hkind : n.kind ∉ reactiveKinds)
    (hc : ∀ c ∈ n.children, IsQuiet c) : IsQuiet n :=
  Node.forall_mem_preorder.2 ⟨⟨hn, hkind⟩, hc⟩

/-- A token or a name is quiet. -/
theorem isQuiet_leaf {kind : String} {start stop : Nat} {named : Bool} {field : Option String}
    (hrange : start ≤ stop) (hkind : kind ∉ reactiveKinds) :
    IsQuiet { kind, start, stop, named, field } :=
  isQuiet_of_children ⟨hrange, nofun, .nil⟩ hkind nofun

/-- A nested name is quiet. -/
theorem isQuiet_nested (field : Option String) (start levels : Nat) :
    IsQuiet (nested field start levels) := by
  induction levels generalizing field start with
  | zero =>
      rw [nested]
      exact isQuiet_leaf (Nat.le_succ _) (by decide)
  | succ levels ih =>
      obtain ⟨hstart, hstop⟩ := range_nested none (start + 1) levels
      rw [nested]
      refine isQuiet_of_children ⟨?_, ?_, ?_⟩ (show "array_pattern" ∉ reactiveKinds by decide) ?_
      · change start ≤ start + 2 * levels + 3
        omega
      · simp only [List.forall_mem_cons, hstart, hstop]
        refine ⟨⟨Nat.le_refl _, ?_⟩, ⟨Nat.le_succ _, ?_⟩, ⟨?_, Nat.le_refl _⟩, nofun⟩ <;> omega
      · simp only [List.pairwise_cons, List.forall_mem_cons, hstart, hstop]
        refine ⟨⟨Nat.le_refl _, ?_, nofun⟩, ⟨?_, nofun⟩, nofun, .nil⟩ <;> omega
      · simp only [List.forall_mem_cons]
        exact ⟨isQuiet_leaf (Nat.le_succ _) (by decide), ih none (start + 1),
          isQuiet_leaf (Nat.le_succ _) (by decide), nofun⟩

/-- A variable that is declared by a nested name. -/
def nestedVariable (levels : Nat) : Node where
  kind := "variable_declarator"
  start := 22
  stop := 2 * levels + 27
  children := [nested (some "name") 22 levels,
    { kind := "=", start := 2 * levels + 24, stop := 2 * levels + 25, named := false },
    { kind := "identifier", start := 2 * levels + 26, stop := 2 * levels + 27,
      field := some "value" }]

/-- The declaration of the variable. -/
def nestedDeclaration (levels : Nat) : Node where
  kind := "lexical_declaration"
  start := 16
  stop := 2 * levels + 28
  children := [{ kind := "const", start := 16, stop := 21, named := false, field := some "kind" },
    nestedVariable levels,
    { kind := ";", start := 2 * levels + 27, stop := 2 * levels + 28, named := false }]

/-- A script of a call and of such a declaration. -/
def deepTree (levels : Nat) : Node := callFirst (2 * levels + 29) [nestedDeclaration levels]

/-- What stands between the call and the pattern. -/
def openingChars : List Char := "\nconst ".toList

/-- What stands behind the pattern. -/
def closingChars : List Char := " = f;\n".toList

/-- The characters of the script behind the call. -/
def deepChars (levels : Nat) : List Char :=
  openingChars ++ (List.replicate levels '[' ++ 'a' :: List.replicate levels ']') ++ closingChars

/-- The script. -/
def deepScript (levels : Nat) : String := String.ofList (headChars ++ deepChars levels)

/-- The variable is quiet. -/
theorem isQuiet_nestedVariable (levels : Nat) : IsQuiet (nestedVariable levels) := by
  obtain ⟨hstart, hstop⟩ := range_nested (some "name") 22 levels
  rw [nestedVariable]
  refine isQuiet_of_children ⟨?_, ?_, ?_⟩ (show "variable_declarator" ∉ reactiveKinds by decide) ?_
  · change 22 ≤ 2 * levels + 27
    omega
  · simp only [List.forall_mem_cons, hstart, hstop]
    refine ⟨⟨Nat.le_refl _, ?_⟩, ⟨?_, ?_⟩, ⟨?_, Nat.le_refl _⟩, nofun⟩ <;> omega
  · simp only [List.pairwise_cons, List.forall_mem_cons, hstop]
    refine ⟨⟨?_, ?_, nofun⟩, ⟨?_, nofun⟩, nofun, .nil⟩ <;> omega
  · simp only [List.forall_mem_cons]
    exact ⟨isQuiet_nested _ _ _, isQuiet_leaf (Nat.le_succ _) (by decide),
      isQuiet_leaf (Nat.le_succ _) (by decide), nofun⟩

/-- The declaration is quiet. -/
theorem isQuiet_nestedDeclaration (levels : Nat) : IsQuiet (nestedDeclaration levels) := by
  rw [nestedDeclaration]
  refine isQuiet_of_children ⟨?_, ?_, ?_⟩ (show "lexical_declaration" ∉ reactiveKinds by decide) ?_
  · change 16 ≤ 2 * levels + 28
    omega
  · simp only [List.forall_mem_cons, nestedVariable]
    refine ⟨⟨Nat.le_refl _, ?_⟩, ⟨?_, ?_⟩, ⟨?_, Nat.le_refl _⟩, nofun⟩ <;> omega
  · simp only [List.pairwise_cons, List.forall_mem_cons, nestedVariable]
    refine ⟨⟨?_, ?_, nofun⟩, ⟨Nat.le_refl _, nofun⟩, nofun, .nil⟩ <;> omega
  · simp only [List.forall_mem_cons]
    exact ⟨isQuiet_leaf (by decide) (by decide), isQuiet_nestedVariable levels,
      isQuiet_leaf (Nat.le_succ _) (by decide), nofun⟩

/-- The script takes more calls than its pattern has levels. -/
theorem lt_declaredDepth_deepTree (source : Bytes) (levels : Nat) :
    levels < declaredDepth source (deepTree levels) := by
  have hvariable : Scope.childPatternDepth (nestedVariable levels) "name" = levels + 1 := by
    have hfield : (nested (some "name") 22 levels).field = some "name" := by cases levels <;> rfl
    rw [Scope.childPatternDepth, nestedVariable, Scope.fieldPatternDepth, hfield,
      if_pos (by decide), patternDepth_nested]
  have hdeclaration : Scope.statementDepth (nestedDeclaration levels) = levels + 2 := by
    rw [nestedDeclaration, Scope.statementDepth, if_neg (by decide), if_pos (by decide)]
    change max (Scope.childPatternDepth (nestedVariable levels) "name") 0 + 1 = _
    rw [hvariable]
    rfl
  have hchildren : (deepTree levels).namedChildren =
      [headStatement, nestedDeclaration levels] := rfl
  have hkind : (deepTree levels).kind = "program" := rfl
  rw [declaredDepth, hkind, if_neg (by decide), if_pos (by decide), Scope.blockDepth, hchildren]
  simp only [Scope.deepest, List.foldr_cons, hdeclaration]
  omega

/-- The bytes of the script begin with those of the call. -/
theorem encode_deepScript (levels : Nat) :
    Text.encode (deepScript levels) = headBytes ++ Text.encodeChars (deepChars levels) := by
  simp only [deepScript, headBytes, Text.encode, String.toList_ofList, Text.encodeChars,
    List.flatMap_append]

/-- They are one for each character. -/
theorem ascii_deepScript (levels : Nat) :
    (∀ b ∈ Text.encode (deepScript levels), b.toNat < 0x80) ∧
      (Text.encode (deepScript levels)).length = 2 * levels + 29 := by
  have hfixed : (headChars ++ openingChars ++ ['[', 'a', ']'] ++ closingChars).all
      (·.toNat < 0x80) = true := by decide +kernel
  have hlengths : headChars.length = 15 ∧ openingChars.length = 7 ∧ closingChars.length = 6 := by
    decide +kernel
  have hchars : ∀ c ∈ headChars ++ deepChars levels, c.toNat < 0x80 := by
    refine fun c hc => of_decide_eq_true (List.all_eq_true.1 hfixed c ?_)
    simp only [deepChars, List.mem_append, List.mem_cons, List.mem_replicate, List.not_mem_nil,
      or_false] at hc ⊢
    rcases hc with h | (h | ⟨-, h⟩ | h | ⟨-, h⟩) | h <;> simp only [h, true_or, or_true]
  rw [Text.encode, deepScript, String.toList_ofList, Text.encodeChars_of_forall_lt hchars]
  constructor
  · intro b hb
    obtain ⟨c, hc, rfl⟩ := List.mem_map.1 hb
    have hlt := hchars c hc
    rwa [Text.toNat_ofNat (by omega)]
  · simp only [deepChars, List.length_map, List.length_append, List.length_cons,
      List.length_replicate]
    omega

/-- The tree of the script is well-nested. -/
theorem wellNested_deepTree (levels : Nat) : (deepTree levels).WellNested := by
  refine Node.forall_mem_preorder.2 ⟨⟨Nat.zero_le _, ?_, ?_⟩, ?_⟩
  · simp only [deepTree, callFirst, List.forall_mem_cons, headStatement, nestedDeclaration]
    refine ⟨⟨Nat.le_refl _, ?_⟩, ⟨?_, ?_⟩, nofun⟩ <;> omega
  · simp only [deepTree, callFirst, List.pairwise_cons, List.forall_mem_cons, headStatement,
      nestedDeclaration]
    exact ⟨⟨by decide, nofun⟩, nofun, .nil⟩
  · simp only [deepTree, callFirst, List.forall_mem_cons]
    exact ⟨by decide, fun m hm => (isQuiet_nestedDeclaration levels m hm).1, nofun⟩

/-- **The tree of the script fits it.** -/
theorem fitting_deepTree (levels : Nat) :
    Fitting (Text.encode (deepScript levels)) (deepTree levels) := by
  obtain ⟨hascii, hlength⟩ := ascii_deepScript levels
  refine ⟨wellNested_deepTree levels, hlength.ge, fun n hn => ?_⟩
  rw [← Place.map_node_preorder ⟨deepTree levels, []⟩] at hn
  obtain ⟨p, hp, rfl⟩ := List.mem_map.1 hn
  obtain ⟨hrange, hstop⟩ := Place.range_of_mem_all (wellNested_deepTree levels) hp
  have hstop : p.node.stop ≤ 2 * levels + 29 := hstop
  constructor <;> exact Text.onBoundary_of_forall_lt hascii (by omega)

/-- Edits that all begin at the front of a text and come one after the other are at most one. -/
theorem isChain_of_start_eq_zero {R : Edit → Edit → Prop} {es : List Edit}
    (h : ∀ e ∈ es, e.start = 0 ∧ 0 < e.stop) (hpair : es.Pairwise fun a b => a.stop ≤ b.start) :
    es.IsChain R := by
  match es with
  | [] => exact .nil
  | [e] => exact .singleton e
  | a :: b :: _ =>
      have hab := (List.pairwise_cons.1 hpair).1 b List.mem_cons_self
      have ha := h a List.mem_cons_self
      have hb := h b (List.mem_cons_of_mem _ List.mem_cons_self)
      omega

/-- **The script asks for one edit** at most, that of its call. -/
theorem matchesApart_deepTree (source : Bytes) (settings : SanitizerSettings) (levels : Nat) :
    MatchesApart source settings (deepTree levels) := by
  have hhead : ∀ m ∈ headStatement.preorder, m.kind ∈ reactiveKinds → m.start = 0 ∧ 0 < m.stop := by
    decide
  refine isChain_of_start_eq_zero (fun e he => ?_)
    (pairwise_editsOf source settings (wellNested_deepTree levels))
  obtain ⟨d, hd, rfl⟩ := List.mem_map.1 he
  obtain ⟨p, hp⟩ := mem_editsOf_iff.1 hd
  obtain ⟨hstart, hstop⟩ := hp.match.range
  have hkind : p.node.kind ∈ reactiveKinds := hp.match.kind_mem
  rw [hstart, hstop]
  have hmem := Place.node_mem_of_mem_all hp.mem_all
  rw [Node.preorder_eq] at hmem
  simp only [deepTree, callFirst, List.mem_cons, List.flatMap_cons, List.flatMap_nil,
    List.append_nil, List.mem_append] at hmem
  rcases hmem with hroot | hcall | hdeclaration
  · rw [hroot] at hkind
    exact absurd hkind (show "program" ∉ reactiveKinds by decide)
  · exact hhead _ hcall hkind
  · exact absurd hkind (isQuiet_nestedDeclaration levels _ hdeclaration).2

/-- The tree of the script has no fault. -/
theorem hasError_deepTree (levels : Nat) : (deepTree levels).hasError = false := by
  have hnested : ∀ field start, (nested field start levels).hasError = false := by
    induction levels with
    | zero => exact fun _ _ => rfl
    | succ levels ih =>
        intro field start
        rw [nested]
        simp [Node.hasError, Node.anyHasError, Node.errorKind, ih]
  have hhead : headStatement.hasError = false := by decide
  simp [deepTree, callFirst, nestedDeclaration, nestedVariable, Node.hasError, Node.anyHasError,
    Node.errorKind, hhead, hnested]

/-- **There is a script for every stack** on which it overflows, though its tree fits it. -/
theorem sanitizeBy_deepScript {first : Parser} (again : Parser) {path : String} {most levels : Nat}
    (hfirst : first path (Text.encode (deepScript levels)) = .ok (deepTree levels))
    (h : most ≤ levels) :
    sanitizeBy first again {} ((deepScript levels).toList.map (·.toNat)) path (.calls most) =
      .error .stackOverflow := by
  have hover : (Scope.Room.calls most).holds
      (walked (Text.encode (deepScript levels)) {} (deepTree levels)).2.depth = false := by
    have htook : declaredDepth _ (deepTree levels) ≤ _ := took_walked (encode_deepScript levels)
    have hdeep := lt_declaredDepth_deepTree (Text.encode (deepScript levels)) levels
    refine decide_eq_false ?_
    change ¬ (walked _ {} (callFirst _ _)).2.depth ≤ most
    omega
  rw [sanitizeBy, Text.encode?_toNat]
  dsimp only
  rw [hfirst]
  dsimp only
  rw [rewriteTree_room, hover]
  rfl

/-- **The usual stack overflows** on a script of a call and a name inside a thousand pairs of
brackets: its tree fits it, what is matched stands apart, and yet there is no result. -/
theorem deepScript_overflows :
    let source := Text.encode (deepScript 1000)
    (Fitting source (deepTree 1000) ∧ MatchesApart source {} (deepTree 1000)) ∧
      sanitizeBy (fun _ _ => .ok (deepTree 1000)) (fun _ _ => .ok (deepTree 1000)) {}
        ((deepScript 1000).toList.map (·.toNat)) "a.js" .usual = .error .stackOverflow :=
  ⟨⟨fitting_deepTree 1000, matchesApart_deepTree _ {} 1000⟩,
    sanitizeBy_deepScript _ rfl (by decide)⟩

end Sanitizer

end ScriptScrub
