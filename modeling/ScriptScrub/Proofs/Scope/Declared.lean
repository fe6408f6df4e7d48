import ScriptScrub.Proofs.Syntax.Places
import ScriptScrub.Scope.Declared

/-!
# Declarations

The language's own notion of a declaration, as relations over trees: what a pattern binds (`Binds`),
what a statement declares in its block (`DeclaresIn`), what a part of a function declares by `var`
(`Hoists`), and with these every form in which a node declares a name for all that stands in it
(`Declares`). The walk with a stack that collects what `var` declares finds what a recursion finds
(`hoistedNames_perm`). The collected names of a node are those of the forms that collecting looks at
(`mem_declaredNames_iff`, `Form.isSeen`). Four forms are not among them: the statements of the other
cases of a `switch`, labelled functions, a `var` in a function but outside its body, and the own
name of a declaration.
-/

namespace ScriptScrub

/-- The child that fills a field is a child. -/
theorem Node.mem_children_of_child? {n c : Node} {field : String} (h : n.child? field = some c) :
    c ∈ n.children :=
  List.mem_of_find?_eq_some h

/-- A child that has a name is a child. -/
theorem Node.mem_children_of_mem_namedChildren {n c : Node} (h : c ∈ n.namedChildren) :
    c ∈ n.children :=
  List.mem_of_mem_filter h

namespace Scope

section
variable (source : Bytes)

/-! ## Patterns -/

/-- A pattern of this kind is a name. -/
abbrev IsName (kind : String) : Prop :=
  kind = "identifier" ∨ kind = "shorthand_property_identifier_pattern"

/-- The parameter or pattern binds the name. -/
inductive Binds : Node → String → Prop where
  | name {n : Node} (hn : IsName n.kind) : Binds n (n.text source)
  | part {n c : Node} {x : String} (hn : n.kind ∈ compoundPatternKinds) (hc : c ∈ n.namedChildren)
      (hx : Binds c x) : Binds n x
  | field {n c : Node} {x field : String} (hn : boundField? n.kind = some field)
      (hc : n.child? field = some c) (hx : Binds c x) : Binds n x

/-- A compound pattern is no name. -/
theorem not_isName_of_mem {kind : String} (h : kind ∈ compoundPatternKinds) : ¬ IsName kind := by
  rintro (rfl | rfl) <;> exact absurd h (by decide)

/-- A pattern that binds what stands in a field is neither a name nor compound. -/
theorem not_isName_of_boundField? {kind field : String} (h : boundField? kind = some field) :
    ¬ IsName kind ∧ kind ∉ compoundPatternKinds := by
  have names : boundField? "identifier" = none ∧
      boundField? "shorthand_property_identifier_pattern" = none ∧
      ∀ k ∈ compoundPatternKinds, boundField? k = none := by decide
  constructor
  · rintro (rfl | rfl)
    · exact nomatch names.1.symm.trans h
    · exact nomatch names.2.1.symm.trans h
  · intro hk
    exact nomatch (names.2.2 kind hk).symm.trans h

/-- The names of a pattern by its kind. -/
theorem patternNames_eq (n : Node) :
    patternNames source n =
      if IsName n.kind then [n.text source]
      else if n.kind ∈ compoundPatternKinds then namedPatternNames source n.children
      else match boundField? n.kind with
        | some field => childPatternNames source n field
        | none => [] := by
  obtain ⟨kind, start, stop, named, missing, broken, field, children⟩ := n
  rw [patternNames]
  rfl

/-- The names of the named ones of some nodes. -/
theorem namedPatternNames_eq (ns : List Node) :
    namedPatternNames source ns = (ns.filter (·.named)).flatMap (patternNames source) := by
  induction ns with
  | nil => rfl
  | cons n ns ih =>
      rw [namedPatternNames, ih, List.filter_cons]
      split <;> rfl

/-- The names of the first node that fills a field. -/
theorem fieldPatternNames_eq (field : String) (ns : List Node) :
    fieldPatternNames source field ns =
      ((ns.find? fun c => c.field == some field).map (patternNames source)).getD [] := by
  induction ns with
  | nil => rfl
  | cons n ns ih =>
      rw [fieldPatternNames, ih, List.find?_cons]
      cases n.field == some field <;> rfl

variable {source}

/-- The names that the child in a field binds. -/
theorem mem_childPatternNames_iff {n : Node} {field x : String} :
    x ∈ childPatternNames source n field ↔
      ∃ c, n.child? field = some c ∧ x ∈ patternNames source c := by
  rw [childPatternNames, fieldPatternNames_eq, Node.child?]
  cases n.children.find? fun c => c.field == some field with
  | none => simp
  | some c => simp

/-- **The names of a pattern** are those that it binds. -/
theorem mem_patternNames_iff {n : Node} {x : String} :
    x ∈ patternNames source n ↔ Binds source n x := by
  induction n using Node.induct with
  | step n ih =>
    rw [patternNames_eq]
    constructor
    · intro h
      split at h
      · next hn =>
        rw [List.mem_singleton.1 h]
        exact .name hn
      split at h
      · next hn =>
        rw [namedPatternNames_eq] at h
        obtain ⟨c, hc, hx⟩ := List.mem_flatMap.1 h
        exact .part hn hc ((ih c (List.mem_of_mem_filter hc)).1 hx)
      split at h
      · next field hn =>
        obtain ⟨c, hc, hx⟩ := mem_childPatternNames_iff.1 h
        exact .field hn hc ((ih c (Node.mem_children_of_child? hc)).1 hx)
      · cases h
    · intro h
      cases h with
      | name hn =>
          rw [if_pos hn]
          exact List.mem_singleton_self _
      | part hn hc hx =>
          rw [if_neg (not_isName_of_mem hn), if_pos hn, namedPatternNames_eq]
          exact List.mem_flatMap.2
            ⟨_, hc, (ih _ (Node.mem_children_of_mem_namedChildren hc)).2 hx⟩
      | field hn hc hx =>
          obtain ⟨hn', hn''⟩ := not_isName_of_boundField? hn
          rw [if_neg hn', if_neg hn'', hn]
          exact mem_childPatternNames_iff.2
            ⟨_, hc, (ih _ (Node.mem_children_of_child? hc)).2 hx⟩

/-- The child in a field binds what is collected of it. -/
theorem mem_childPatternNames_iff_binds {n : Node} {field x : String} :
    x ∈ childPatternNames source n field ↔ ∃ c, n.child? field = some c ∧ Binds source c x := by
  rw [mem_childPatternNames_iff]
  simp only [mem_patternNames_iff]

/-! ## Statements -/

variable (source) in
/-- The import declares the name: its default, the name for everything, or one of a list under its
alias or its own name. -/
inductive Imports (statement : Node) : String → Prop where
  | default {clause part : Node} (hc : clause ∈ statement.namedChildren)
      (hk : clause.kind = "import_clause") (hp : part ∈ clause.namedChildren)
      (hn : part.kind = "identifier") : Imports statement (part.text source)
  | everything {clause part name : Node} (hc : clause ∈ statement.namedChildren)
      (hk : clause.kind = "import_clause") (hp : part ∈ clause.namedChildren)
      (hn : part.kind = "namespace_import") (hi : name ∈ part.namedChildren)
      (hi' : name.kind = "identifier") : Imports statement (name.text source)
  | listed {clause part specifier name : Node} (hc : clause ∈ statement.namedChildren)
      (hk : clause.kind = "import_clause") (hp : part ∈ clause.namedChildren)
      (hn : part.kind = "named_imports") (hi : specifier ∈ part.namedChildren)
      (hi' : specifier.kind = "import_specifier")
      (hname : (specifier.child? "alias").or (specifier.child? "name") = some name) :
      Imports statement (name.text source)

variable (source) in
/-- The statement declares the name in the block that it stands in. -/
inductive DeclaresIn : Node → String → Prop where
  | binding {n declarator c : Node} {x : String}
      (hn : n.kind = "lexical_declaration" ∨ n.kind = "variable_declaration")
      (hd : declarator ∈ n.namedChildren) (hk : declarator.kind = "variable_declarator")
      (hc : declarator.child? "name" = some c) (hx : Binds source c x) : DeclaresIn n x
  | named {n c : Node} (hn : n.kind ∈ namedDeclarationKinds) (hc : n.child? "name" = some c) :
      DeclaresIn n (c.text source)
  | imported {n : Node} {x : String} (hn : n.kind = "import_statement") (hx : Imports source n x) :
      DeclaresIn n x
  | exported {n c : Node} {x : String} (hn : n.kind = "export_statement")
      (hc : n.child? "declaration" = some c) (hx : DeclaresIn c x) : DeclaresIn n x

/-- The name that a node carries. -/
theorem mem_ownName_iff {n : Node} {x : String} :
    x ∈ ownName source n ↔ ∃ c, n.child? "name" = some c ∧ x = c.text source := by
  rw [ownName]
  cases n.child? "name" with
  | none => simp
  | some c => simp

/-- The variables of a declaration. -/
theorem mem_variableNames_iff {n : Node} {x : String} :
    x ∈ variableNames source n ↔ ∃ declarator ∈ n.namedChildren,
      declarator.kind = "variable_declarator" ∧
        ∃ c, declarator.child? "name" = some c ∧ Binds source c x := by
  rw [variableNames, List.mem_flatMap]
  simp only [List.mem_filter, beq_iff_eq, mem_childPatternNames_iff_binds, and_assoc]

/-- **The names of an import** are those that it declares. -/
theorem mem_importNames_iff {n : Node} {x : String} :
    x ∈ importNames source n ↔ Imports source n x := by
  rw [importNames, List.mem_flatMap]
  constructor
  · rintro ⟨clause, hclause, h⟩
    rw [List.mem_filter, beq_iff_eq] at hclause
    obtain ⟨part, hpart, hx⟩ := List.mem_flatMap.1 h
    unfold importPartNames at hx
    split at hx
    · next hk =>
      rw [List.mem_singleton.1 hx]
      exact .default hclause.1 hclause.2 hpart hk
    · next hk =>
      obtain ⟨name, hname, rfl⟩ := List.mem_map.1 hx
      rw [List.mem_filter, beq_iff_eq] at hname
      exact .everything hclause.1 hclause.2 hpart hk hname.1 hname.2
    · next hk =>
      obtain ⟨specifier, hspecifier, hx⟩ := List.mem_flatMap.1 hx
      rw [List.mem_filter, beq_iff_eq] at hspecifier
      rw [Option.mem_toList, Option.map_eq_some_iff] at hx
      obtain ⟨name, hname, rfl⟩ := hx
      exact .listed hclause.1 hclause.2 hpart hk hspecifier.1 hspecifier.2 hname
    · cases hx
  · intro h
    cases h with
    | default hc hk hp hn =>
        refine ⟨_, List.mem_filter.2 ⟨hc, beq_iff_eq.2 hk⟩, List.mem_flatMap.2 ⟨_, hp, ?_⟩⟩
        simp [importPartNames, hn]
    | everything hc hk hp hn hi hi' =>
        refine ⟨_, List.mem_filter.2 ⟨hc, beq_iff_eq.2 hk⟩, List.mem_flatMap.2 ⟨_, hp, ?_⟩⟩
        simp only [importPartNames, hn]
        exact List.mem_map_of_mem (List.mem_filter.2 ⟨hi, beq_iff_eq.2 hi'⟩)
    | listed hc hk hp hn hi hi' hname =>
        refine ⟨_, List.mem_filter.2 ⟨hc, beq_iff_eq.2 hk⟩, List.mem_flatMap.2 ⟨_, hp, ?_⟩⟩
        simp only [importPartNames, hn]
        refine List.mem_flatMap.2 ⟨_, List.mem_filter.2 ⟨hi, beq_iff_eq.2 hi'⟩, ?_⟩
        rw [hname]
        exact List.mem_singleton_self _

variable (source) in
/-- The names of a statement by its kind. -/
theorem statementNames_eq (n : Node) :
    statementNames source n =
      if n.kind = "export_statement" then
        ((n.child? "declaration").map (statementNames source)).getD []
      else if n.kind = "lexical_declaration" ∨ n.kind = "variable_declaration" then
        variableNames source n
      else if n.kind ∈ namedDeclarationKinds then ownName source n
      else if n.kind = "import_statement" then importNames source n
      else [] := by
  have exported : ∀ ns : List Node, exportedNames source ns =
      ((ns.find? fun c => c.field == some "declaration").map (statementNames source)).getD [] := by
    intro ns
    induction ns with
    | nil => rfl
    | cons n ns ih =>
        rw [exportedNames, ih, List.find?_cons]
        cases n.field == some "declaration" <;> rfl
  obtain ⟨kind, start, stop, named, missing, broken, field, children⟩ := n
  rw [statementNames, exported]
  rfl

/-- **The names of a statement** are those that it declares. -/
theorem mem_statementNames_iff {n : Node} {x : String} :
    x ∈ statementNames source n ↔ DeclaresIn source n x := by
  induction n using Node.induct with
  | step n ih =>
    rw [statementNames_eq]
    constructor
    · intro h
      split at h
      · next hn =>
        cases hc : n.child? "declaration" with
        | none => simp [hc] at h
        | some c =>
            rw [hc, Option.map_some, Option.getD_some] at h
            exact .exported hn hc ((ih c (Node.mem_children_of_child? hc)).1 h)
      split at h
      · next hn =>
        obtain ⟨declarator, hd, hk, c, hc, hx⟩ := mem_variableNames_iff.1 h
        exact .binding hn hd hk hc hx
      split at h
      · next hn =>
        obtain ⟨c, hc, rfl⟩ := mem_ownName_iff.1 h
        exact .named hn hc
      split at h
      · next hn => exact .imported hn (mem_importNames_iff.1 h)
      · cases h
    · intro h
      cases h with
      | binding hn hd hk hc hx =>
          have hexport : n.kind ≠ "export_statement" := by
            rcases hn with h | h <;> rw [h] <;> decide
          rw [if_neg hexport, if_pos hn]
          exact mem_variableNames_iff.2 ⟨_, hd, hk, _, hc, hx⟩
      | named hn hc =>
          have hother : ∀ kind ∈ namedDeclarationKinds, kind ≠ "export_statement" ∧
              ¬ (kind = "lexical_declaration" ∨ kind = "variable_declaration") := by decide
          rw [if_neg (hother _ hn).1, if_neg (hother _ hn).2, if_pos hn]
          exact mem_ownName_iff.2 ⟨_, hc, rfl⟩
      | imported hn hx =>
          rw [hn, if_neg (by decide), if_neg (by decide), if_neg (by decide), if_pos rfl]
          exact mem_importNames_iff.2 hx
      | exported hn hc hx =>
          rw [if_pos hn, hc, Option.map_some, Option.getD_some]
          exact (ih _ (Node.mem_children_of_child? hc)).2 hx

/-! ## Variables of a function -/

variable (source) in
/-- The node, which is no function, declares the name by `var`, or some node below it does that is
not inside a function. -/
inductive Hoists : Node → String → Prop where
  | declaration {n : Node} {x : String} (hn : n.kind = "variable_declaration")
      (hx : DeclaresIn source n x) : Hoists n x
  | loop {n k c : Node} {x : String} (hn : n.kind = "for_in_statement")
      (hk : n.child? "kind" = some k) (hvar : k.text source = "var")
      (hc : n.child? "left" = some c) (hx : Binds source c x) : Hoists n x
  | inside {n c : Node} {x : String} (hn : n.kind ∉ functionKinds) (hc : c ∈ n.namedChildren)
      (hx : Hoists c x) : Hoists n x

variable (source) in
/-- The node itself declares the name by `var`. -/
inductive DeclaresVar (n : Node) : String → Prop where
  | declaration {x : String} (hn : n.kind = "variable_declaration") (hx : DeclaresIn source n x) :
      DeclaresVar n x
  | loop {k c : Node} {x : String} (hn : n.kind = "for_in_statement")
      (hk : n.child? "kind" = some k) (hvar : k.text source = "var")
      (hc : n.child? "left" = some c) (hx : Binds source c x) : DeclaresVar n x

/-- **The names that a node itself hoists** are those that it declares by `var`. -/
theorem mem_hoistedHere_iff {n : Node} {x : String} :
    x ∈ hoistedHere source n ↔ DeclaresVar source n x := by
  have hloop : isVarLoop source n = true ↔ n.kind = "for_in_statement" ∧
      ∃ k, n.child? "kind" = some k ∧ k.text source = "var" := by
    rw [isVarLoop, Bool.and_eq_true, beq_iff_eq, Option.any_eq_true]
    simp only [beq_iff_eq]
  rw [hoistedHere]
  constructor
  · intro h
    split at h
    · next hn => exact .declaration hn (mem_statementNames_iff.1 h)
    split at h
    · next hn =>
      obtain ⟨hn, k, hk, hvar⟩ := hloop.1 hn
      obtain ⟨c, hc, hx⟩ := mem_childPatternNames_iff_binds.1 h
      exact .loop hn hk hvar hc hx
    · cases h
  · intro h
    cases h with
    | declaration hn hx =>
        rw [if_pos hn]
        exact mem_statementNames_iff.2 hx
    | loop hn hk hvar hc hx =>
        rw [if_neg (by rw [hn]; decide), if_pos (hloop.2 ⟨hn, _, hk, hvar⟩)]
        exact mem_childPatternNames_iff_binds.2 ⟨_, hc, hx⟩

/-- A node that declares a name by `var` is no function. -/
theorem DeclaresVar.not_function {n : Node} {x : String} (h : DeclaresVar source n x) :
    n.kind ∉ functionKinds := by
  cases h with
  | declaration hn | loop hn =>
      rw [hn]
      decide

/-- What a node hoists: nothing if it is a function, or else what it declares by `var` and what its
children with a name hoist. -/
theorem hoists_iff {n : Node} {x : String} :
    Hoists source n x ↔ n.kind ∉ functionKinds ∧
      (DeclaresVar source n x ∨ ∃ c ∈ n.namedChildren, Hoists source c x) := by
  constructor
  · intro h
    cases h with
    | declaration hn hx =>
        have hvar : DeclaresVar source n x := .declaration hn hx
        exact ⟨hvar.not_function, .inl hvar⟩
    | loop hn hk hvar hc hx =>
        have hvar : DeclaresVar source n x := .loop hn hk hvar hc hx
        exact ⟨hvar.not_function, .inl hvar⟩
    | inside hn hc hx => exact ⟨hn, .inr ⟨_, hc, hx⟩⟩
  · rintro ⟨hn, h | ⟨c, hc, hx⟩⟩
    · cases h with
      | declaration hn hx => exact .declaration hn hx
      | loop hn hk hvar hc hx => exact .loop hn hk hvar hc hx
    · exact .inside hn hc hx

section
variable (source)

mutual

/-- The names that `var` declares in a node, functions inside it left out. -/
def hoistedIn : Node → List String
  | n@⟨kind, _, _, _, _, _, _, children⟩ =>
    if kind ∈ functionKinds then [] else hoistedHere source n ++ hoistedAmong children

/-- The names that `var` declares in the named ones of some nodes. -/
def hoistedAmong : List Node → List String
  | [] => []
  | n :: ns => if n.named then hoistedIn n ++ hoistedAmong ns else hoistedAmong ns

end

/-- The hoisted names of a node by its kind. -/
theorem hoistedIn_eq (n : Node) :
    hoistedIn source n =
      if n.kind ∈ functionKinds then []
      else hoistedHere source n ++ n.namedChildren.flatMap (hoistedIn source) := by
  have among : ∀ ns : List Node,
      hoistedAmong source ns = (ns.filter (·.named)).flatMap (hoistedIn source) := by
    intro ns
    induction ns with
    | nil => rfl
    | cons n ns ih =>
        rw [hoistedAmong, ih, List.filter_cons]
        split <;> rfl
  obtain ⟨kind, start, stop, named, missing, broken, field, children⟩ := n
  rw [hoistedIn, among]
  rfl

/-- **The names that a stack comes to** are those of its nodes by recursion, in some order. -/
theorem hoistedStack_perm (ns : List Node) :
    (hoistedStack source ns).Perm (ns.flatMap (hoistedIn source)) := by
  induction ns using hoistedStack.induct with
  | case1 => rw [hoistedStack, List.flatMap_nil]
  | case2 n ns hn ih =>
      rw [hoistedStack, if_pos hn, List.flatMap_cons, hoistedIn_eq, if_pos hn]
      exact ih
  | case3 n ns hn ih =>
      rw [hoistedStack, if_neg hn, List.flatMap_cons, hoistedIn_eq, if_neg hn, List.append_assoc]
      rw [List.flatMap_append] at ih
      exact (ih.trans (((List.reverse_perm _).flatMap_right _).append_right _)).append_left _

/-- **The hoisted names below a body** are those of its children by recursion, in some order. -/
theorem hoistedNames_perm (body : Node) :
    (hoistedNames source body).Perm (body.namedChildren.flatMap (hoistedIn source)) :=
  (hoistedStack_perm source _).trans ((List.reverse_perm _).flatMap_right _)

end

/-- **The hoisted names of a node** are those that it or a node below declares by `var`. -/
theorem mem_hoistedIn_iff {n : Node} {x : String} :
    x ∈ hoistedIn source n ↔ Hoists source n x := by
  induction n using Node.induct with
  | step n ih =>
    rw [hoistedIn_eq, hoists_iff]
    split
    · next hn => simp [hn]
    · next hn =>
      rw [List.mem_append, mem_hoistedHere_iff, List.mem_flatMap, and_iff_right hn]
      refine or_congr_right (exists_congr fun c => and_congr_right fun hc => ?_)
      exact ih c (Node.mem_children_of_mem_namedChildren hc)

/-- The hoisted names below a body. -/
theorem mem_hoistedNames_iff {body : Node} {x : String} :
    x ∈ hoistedNames source body ↔ ∃ c ∈ body.namedChildren, Hoists source c x := by
  rw [(hoistedNames_perm source body).mem_iff, List.mem_flatMap]
  simp only [mem_hoistedIn_iff]

/-! ## Forms of declarations -/

/-- The forms in which a node declares a name for all that stands in it. -/
inductive Form where
  /-- A parameter of a function. -/
  | parameter
  /-- The own name of a function expression or a class expression. -/
  | ownName
  /-- A statement of a block, each case of a `switch` being one of its own. -/
  | statement
  /-- A `var` in the body of a function or in the program. -/
  | bodyVariable
  /-- The variable of a loop. -/
  | loopVariable
  /-- The parameter of a `catch`. -/
  | caught
  /-- A statement of one of the cases of a `switch`. -/
  | switchStatement
  /-- A function behind labels among the statements of a block. -/
  | labelledFunction
  /-- A `var` in a function, be it in its body or not. -/
  | functionVariable
  /-- The own name of a function declaration or a class declaration. -/
  | declarationName
deriving Repr, DecidableEq

/-- The form is one that collecting the names of a node looks at. -/
def Form.isSeen : Form → Bool
  | parameter | ownName | statement | bodyVariable | loopVariable | caught => true
  | switchStatement | labelledFunction | functionVariable | declarationName => false

variable (source) in
/-- Behind its labels the statement is a declaration of the name. -/
inductive Labels : Node → String → Prop where
  | declaration {n c : Node} {x : String} (hn : n.kind = "labeled_statement")
      (hc : n.child? "body" = some c) (hx : DeclaresIn source c x) : Labels n x
  | label {n c : Node} {x : String} (hn : n.kind = "labeled_statement")
      (hc : n.child? "body" = some c) (hx : Labels c x) : Labels n x

variable (source) in
/-- The node declares the name for all that stands in it. -/
inductive Declares : Form → Node → String → Prop where
  | parameter {n list c : Node} {x : String} (hn : n.kind ∈ functionKinds)
      (hl : n.child? "parameters" = some list) (hc : c ∈ list.namedChildren)
      (hx : Binds source c x) : Declares .parameter n x
  | soleParameter {n c : Node} {x : String} (hn : n.kind ∈ functionKinds)
      (hc : n.child? "parameter" = some c) (hx : Binds source c x) : Declares .parameter n x
  | ownName {n c : Node} (hn : n.kind ∈ selfNamedKinds) (hc : n.child? "name" = some c) :
      Declares .ownName n (c.text source)
  | statement {n c : Node} {x : String} (hn : n.kind ∈ blockKinds) (hc : c ∈ n.namedChildren)
      (hx : DeclaresIn source c x) : Declares .statement n x
  | bodyVariable {n body c : Node} {x : String} (hn : n.kind ∈ functionKinds)
      (hb : n.child? "body" = some body) (hb' : body.kind = "statement_block")
      (hc : c ∈ body.namedChildren) (hx : Hoists source c x) : Declares .bodyVariable n x
  | programVariable {n c : Node} {x : String} (hn : n.kind = "program")
      (hc : c ∈ n.namedChildren) (hx : Hoists source c x) : Declares .bodyVariable n x
  | loopStart {n c : Node} {x : String} (hn : n.kind = "for_statement")
      (hc : n.child? "initializer" = some c) (hx : DeclaresIn source c x) :
      Declares .loopVariable n x
  | loopMember {n k c : Node} {x : String} (hn : n.kind = "for_in_statement")
      (hk : n.child? "kind" = some k) (hc : n.child? "left" = some c) (hx : Binds source c x) :
      Declares .loopVariable n x
  | caught {n c : Node} {x : String} (hn : n.kind = "catch_clause")
      (hc : n.child? "parameter" = some c) (hx : Binds source c x) : Declares .caught n x
  | switchStatement {n case_ c : Node} {x : String} (hn : n.kind = "switch_body")
      (hk : case_ ∈ n.namedChildren) (hk' : case_.kind ∈ ["switch_case", "switch_default"])
      (hc : c ∈ case_.namedChildren) (hx : DeclaresIn source c x) : Declares .switchStatement n x
  | labelledFunction {n c : Node} {x : String} (hn : n.kind ∈ blockKinds)
      (hc : c ∈ n.namedChildren) (hx : Labels source c x) : Declares .labelledFunction n x
  | functionVariable {n c : Node} {x : String} (hn : n.kind ∈ functionKinds)
      (hc : c ∈ n.namedChildren) (hx : Hoists source c x) : Declares .functionVariable n x
  | declarationName {n c : Node} (hn : n.kind ∈ namedDeclarationKinds)
      (hc : n.child? "name" = some c) : Declares .declarationName n (c.text source)

/-- The names of a function are those of its parameters and those that its body hoists. -/
theorem mem_functionNames_iff {n : Node} {x : String} (hn : n.kind ∈ functionKinds) :
    x ∈ functionNames source n ↔
      Declares source .parameter n x ∨ ∃ body, n.child? "body" = some body ∧
        body.kind = "statement_block" ∧ ∃ c ∈ body.namedChildren, Hoists source c x := by
  rw [functionNames, List.mem_append, List.mem_append, mem_childPatternNames_iff_binds]
  constructor
  · rintro ((h | ⟨c, hc, hx⟩) | h)
    · split at h
      · next list hl =>
        rw [namedPatternNames_eq] at h
        obtain ⟨c, hc, hx⟩ := List.mem_flatMap.1 h
        exact .inl (.parameter hn hl hc (mem_patternNames_iff.1 hx))
      · cases h
    · exact .inl (.soleParameter hn hc hx)
    · split at h
      · next body hb =>
        split at h
        · next hb' => exact .inr ⟨body, hb, hb', mem_hoistedNames_iff.1 h⟩
        · cases h
      · cases h
  · rintro (h | ⟨body, hb, hb', h⟩)
    · cases h with
      | parameter _ hl hc hx =>
          rw [hl]
          dsimp only
          rw [namedPatternNames_eq]
          exact .inl (.inl (List.mem_flatMap.2 ⟨_, hc, mem_patternNames_iff.2 hx⟩))
      | soleParameter _ hc hx => exact .inl (.inr ⟨_, hc, hx⟩)
    · rw [hb]
      dsimp only
      rw [if_pos hb']
      exact .inr (mem_hoistedNames_iff.2 h)

/-- The names of a block are those of its statements and, in a program, those that it hoists. -/
theorem mem_blockNames_iff {n : Node} {x : String} :
    x ∈ blockNames source n ↔ (∃ c ∈ n.namedChildren, DeclaresIn source c x) ∨
      n.kind = "program" ∧ ∃ c ∈ n.namedChildren, Hoists source c x := by
  rw [blockNames, List.mem_append, List.mem_flatMap]
  simp only [mem_statementNames_iff]
  refine or_congr_right ?_
  split
  · next hn => simp only [hn, true_and, mem_hoistedNames_iff]
  · next hn => simp [hn]

/-- The names of the head of a loop or of a `catch`. -/
theorem mem_headNames_iff {n : Node} {x : String} :
    x ∈ headNames source n ↔ Declares source .loopVariable n x ∨ Declares source .caught n x := by
  unfold headNames
  constructor
  · intro h
    split at h
    · next hn =>
      cases hc : n.child? "initializer" with
      | none => simp [hc] at h
      | some c =>
          rw [hc, Option.map_some, Option.getD_some] at h
          exact .inl (.loopStart hn hc (mem_statementNames_iff.1 h))
    · next hn =>
      split at h
      · next hk =>
        obtain ⟨k, hk⟩ := Option.isSome_iff_exists.1 hk
        obtain ⟨c, hc, hx⟩ := mem_childPatternNames_iff_binds.1 h
        exact .inl (.loopMember hn hk hc hx)
      · cases h
    · next hn =>
      obtain ⟨c, hc, hx⟩ := mem_childPatternNames_iff_binds.1 h
      exact .inr (.caught hn hc hx)
    · cases h
  · rintro (h | h)
    · cases h with
      | loopStart hn hc hx =>
          simp only [hn, hc, Option.map_some, Option.getD_some]
          exact mem_statementNames_iff.2 hx
      | loopMember hn hk hc hx =>
          simp only [hn, hk, Option.isSome_some, if_true]
          exact mem_childPatternNames_iff_binds.2 ⟨_, hc, hx⟩
    · cases h with
      | caught hn hc hx =>
          simp only [hn]
          exact mem_childPatternNames_iff_binds.2 ⟨_, hc, hx⟩

/-- The heads of loops and `catch`es are no blocks. -/
theorem not_mem_blockKinds {n : Node} {x : String}
    (h : Declares source .loopVariable n x ∨ Declares source .caught n x) :
    n.kind ∉ blockKinds := by
  rcases h with h | h
  · cases h with
    | loopStart hn | loopMember hn =>
        rw [hn]
        decide
  · cases h with
    | caught hn =>
        rw [hn]
        decide

/-- **The collected names of a node** are those that it declares in one of the forms that are
looked at. -/
theorem mem_declaredNames_iff {n : Node} {x : String} :
    x ∈ declaredNames source n ↔ ∃ form : Form, form.isSeen = true ∧ Declares source form n x := by
  rw [declaredNames, List.mem_append, List.mem_append]
  constructor
  · rintro ((h | h) | h)
    · split at h
      · next hn =>
        rcases (mem_functionNames_iff hn).1 h with h | ⟨body, hb, hb', c, hc, hx⟩
        · exact ⟨.parameter, rfl, h⟩
        · exact ⟨.bodyVariable, rfl, .bodyVariable hn hb hb' hc hx⟩
      · cases h
    · split at h
      · next hn =>
        obtain ⟨c, hc, rfl⟩ := mem_ownName_iff.1 h
        exact ⟨.ownName, rfl, .ownName hn hc⟩
      · cases h
    · split at h
      · next hn =>
        rcases mem_blockNames_iff.1 h with ⟨c, hc, hx⟩ | ⟨hn', c, hc, hx⟩
        · exact ⟨.statement, rfl, .statement hn hc hx⟩
        · exact ⟨.bodyVariable, rfl, .programVariable hn' hc hx⟩
      · rcases mem_headNames_iff.1 h with h | h
        · exact ⟨.loopVariable, rfl, h⟩
        · exact ⟨.caught, rfl, h⟩
  · rintro ⟨form, hseen, h⟩
    cases form with
    | parameter =>
        have hn : n.kind ∈ functionKinds := by cases h <;> assumption
        rw [if_pos hn]
        exact .inl (.inl ((mem_functionNames_iff hn).2 (.inl h)))
    | ownName =>
        cases h with
        | ownName hn hc =>
            rw [if_pos hn]
            exact .inl (.inr (mem_ownName_iff.2 ⟨_, hc, rfl⟩))
    | statement =>
        cases h with
        | statement hn hc hx =>
            rw [if_pos hn]
            exact .inr (mem_blockNames_iff.2 (.inl ⟨_, hc, hx⟩))
    | bodyVariable =>
        cases h with
        | bodyVariable hn hb hb' hc hx =>
            rw [if_pos hn]
            exact .inl (.inl ((mem_functionNames_iff hn).2 (.inr ⟨_, hb, hb', _, hc, hx⟩)))
        | programVariable hn hc hx =>
            have hblock : n.kind ∈ blockKinds := by
              rw [hn]
              decide
            rw [if_pos hblock]
            exact .inr (mem_blockNames_iff.2 (.inr ⟨hn, _, hc, hx⟩))
    | loopVariable =>
        rw [if_neg (not_mem_blockKinds (.inl h))]
        exact .inr (mem_headNames_iff.2 (.inl h))
    | caught =>
        rw [if_neg (not_mem_blockKinds (.inr h))]
        exact .inr (mem_headNames_iff.2 (.inr h))
    | switchStatement | labelledFunction | functionVariable | declarationName => cases hseen

end

end Scope

end ScriptScrub
