/-!
# Character classes

What stands between the brackets of a glob: single characters and ranges, possibly negated. A
backslash is a character like any other here, and a slash may be a member.
-/

namespace ScriptScrub.Glob

/-- The characters from `lo` to `hi` for each range, or all others. -/
structure CharClass where
  negated : Bool
  ranges : List (Char × Char)
deriving Repr, DecidableEq, Inhabited

namespace CharClass

/-- Is `c` in the class? -/
def contains (k : CharClass) (c : Char) : Bool :=
  (k.ranges.any fun (lo, hi) => lo ≤ c && c ≤ hi) != k.negated

/-- Does no range end before it starts? -/
def isOrdered (k : CharClass) : Bool := k.ranges.all fun (lo, hi) => lo ≤ hi

/-- The ranges that a text between brackets lists. A dash between two characters spans a range, one
at the end is a member. -/
def rangesOf : List Char → List (Char × Char)
  | lo :: '-' :: hi :: rest => (lo, hi) :: rangesOf rest
  | c :: rest => (c, c) :: rangesOf rest
  | [] => []

/-- The class that follows an opening bracket, and what follows the bracket that closes it, if there
is one. A closing bracket in the first place, or right after the sign of negation, is a member. -/
def read? (cs : List Char) : Option (CharClass × List Char) :=
  let (negated, cs) := match cs with
    | '!' :: rest | '^' :: rest => (true, rest)
    | _ => (false, cs)
  let (first, cs) := match cs with
    | ']' :: rest => ([']'], rest)
    | _ => ([], cs)
  match cs.dropWhile (· != ']') with
  | [] => none
  | _ :: rest => some (⟨negated, rangesOf (first ++ cs.takeWhile (· != ']'))⟩, rest)

end CharClass

end ScriptScrub.Glob
