import ScriptScrub.Script.Input
import ScriptScrub.Syntax.Node

/-!
# Comments in the tree

Comments stand between tokens, anywhere. They are found in the gaps that the tokens of a tree
leave, and each becomes a child of the innermost node that reaches around it.
-/

namespace ScriptScrub.Script

/-- The comments between two positions that hold nothing else but white space. -/
def commentsBetween (input : Input) (stop : Nat) : Nat → Nat → List Node
  | 0, _ => []
  | n + 1, i =>
    let j := input.skip isSpace i
    if stop ≤ j then []
    else match input.commentEnd? j with
      | some k => { kind := "comment", start := j, stop := k } :: commentsBetween input stop n k
      | none =>
        match input.markupCommentEnd? j with
        | some k =>
          { kind := "html_comment", start := j, stop := k } :: commentsBetween input stop n k
        | none => []

mutual

/-- The ranges of the tokens of a tree. -/
def tokenRanges : Node → List (Nat × Nat)
  | ⟨_, start, stop, _, _, _, _, children⟩ =>
    match children with
    | [] => [(start, stop)]
    | children => tokenRangesAll children

/-- The ranges of the tokens of some trees. -/
def tokenRangesAll : List Node → List (Nat × Nat)
  | [] => []
  | n :: ns => tokenRanges n ++ tokenRangesAll ns

end

/-- The comments in the gaps between tokens, from a position on. -/
def commentsFrom (input : Input) : Nat → List (Nat × Nat) → List Node
  | i, [] => commentsBetween input input.size (input.size + 1 - i) i
  | i, (start, stop) :: rest =>
    (if i < start then commentsBetween input start (start - i) i else []) ++
      commentsFrom input stop rest

/-- The range of `n` reaches around `c`. -/
def surrounds (n c : Node) : Bool := n.start < c.start && c.stop ≤ n.stop && !n.children.isEmpty

mutual

/-- Puts a comment where it belongs below a node that reaches around it. -/
def insertComment (c : Node) : Node → Node
  | ⟨kind, start, stop, named, missing, broken, field, children⟩ =>
    ⟨kind, start, stop, named, missing, broken, field, insertAmong c children⟩

/-- Puts a comment into or between some nodes. -/
def insertAmong (c : Node) : List Node → List Node
  | [] => [c]
  | n :: ns =>
    if surrounds n c then insertComment c n :: ns
    else if c.start < n.start then c :: n :: ns
    else n :: insertAmong c ns

end

/-- The tree with the comments of the script. -/
def withComments (input : Input) (root : Node) : Node :=
  (commentsFrom input 0 (tokenRangesAll root.children)).foldl (fun n c => insertComment c n) root

end ScriptScrub.Script
