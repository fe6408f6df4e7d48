import Mathlib.Logic.Relation
import ScriptScrub.Proofs.Scope.Declared

/-!
# Hoisting

What a body hoists is collected by a walk with a stack that passes functions over and goes on below
the declarations it comes to. Here the nodes that it looks at are told without a walk: those that a
way down from the body reaches through children with a name, none of them a function (`Reaches`).
The hoisted names are what these nodes declare by `var` (`hoisted_exactly_reached`).
-/

namespace ScriptScrub.Scope

/-- The way down goes on from a node to a child that has a name and is no function. -/
def Enters (n c : Node) : Prop := c ∈ n.namedChildren ∧ c.kind ∉ functionKinds

/-- A way down from the body reaches the node. No node on it is a function, nor is the node; only
the body may be one. -/
def Reaches : Node → Node → Prop := Relation.TransGen Enters

section
variable {source : Bytes}

/-- A node hoists what is declared by `var` at a node that the way down from it goes on to. -/
theorem hoists_of_declaresVar {n m : Node} {x : String} (h : Relation.ReflTransGen Enters n m)
    (hn : n.kind ∉ functionKinds) (hx : DeclaresVar source m x) : Hoists source n x := by
  induction h using Relation.ReflTransGen.head_induction_on with
  | refl => exact hoists_iff.2 ⟨hn, .inl hx⟩
  | head henters _ ih => exact hoists_iff.2 ⟨hn, .inr ⟨_, henters.1, ih henters.2⟩⟩

/-- What a node hoists is declared by `var` at it or at a node that the way down goes on to. -/
theorem Hoists.exists_declaresVar {n : Node} {x : String} (h : Hoists source n x) :
    n.kind ∉ functionKinds ∧
      ∃ m, Relation.ReflTransGen Enters n m ∧ DeclaresVar source m x := by
  induction n using Node.induct with
  | step n ih =>
    obtain ⟨hn, hx | ⟨c, hc, hx⟩⟩ := hoists_iff.1 h
    · exact ⟨hn, n, .refl, hx⟩
    · obtain ⟨hfunction, m, hm, hx⟩ := ih c (Node.mem_children_of_mem_namedChildren hc) hx
      exact ⟨hn, m, .head ⟨hc, hfunction⟩ hm, hx⟩

variable (source) in
/-- **Hoisting reaches every `var` and stops at every function.** A name is hoisted exactly if a
declaration of variables or a `var` loop that is reached from the body binds it, and it is found as
often as by a recursion that leaves functions out. -/
theorem hoisted_exactly_reached (body : Node) :
    (hoistedNames source body).Perm (body.namedChildren.flatMap (hoistedIn source)) ∧
      ∀ x, x ∈ hoistedNames source body ↔ ∃ n, Reaches body n ∧ DeclaresVar source n x := by
  refine ⟨hoistedNames_perm source body, fun x => ?_⟩
  rw [mem_hoistedNames_iff]
  constructor
  · rintro ⟨c, hc, hx⟩
    obtain ⟨hn, m, hm, hx⟩ := hx.exists_declaresVar
    exact ⟨m, .head' ⟨hc, hn⟩ hm, hx⟩
  · rintro ⟨m, hm, hx⟩
    obtain ⟨c, ⟨hc, hn⟩, hm⟩ := Relation.TransGen.head'_iff.1 hm
    exact ⟨c, hc, hoists_of_declaresVar hm hn hx⟩

end

end ScriptScrub.Scope
