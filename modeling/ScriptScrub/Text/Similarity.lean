/-!
# Similar texts

How alike two texts are: the share of their characters that lie in common blocks. The longest common
block is taken first, then the blocks before it and after it in the same way.
-/

namespace ScriptScrub.Text

/-- The length of the longest common start of two lists. -/
def commonStart : List Char → List Char → Nat
  | a :: as, b :: bs => if a = b then commonStart as bs + 1 else 0
  | _, _ => 0

/-- The longest common block that starts at the front of `as`: its place in `bs` and its length. Of
equally long ones the first counts. -/
def longestHere (as : List Char) : Nat → List Char → Nat × Nat
  | j, [] => (j, 0)
  | j, b :: bs =>
    let here := commonStart as (b :: bs)
    let later := longestHere as (j + 1) bs
    if later.2 ≤ here then (j, here) else later

/-- The longest common block of two lists: its places in both and its length. -/
def longestBlock (bs : List Char) : Nat → List Char → Nat × Nat × Nat
  | i, [] => (i, 0, 0)
  | i, a :: as =>
    let (j, here) := longestHere (a :: as) 0 bs
    let later := longestBlock bs (i + 1) as
    if later.2.2 ≤ here then (i, j, here) else later

/-- The number of characters in common blocks, which are looked for `depth` blocks deep. -/
def matchedWithin : Nat → List Char → List Char → Nat
  | 0, _, _ => 0
  | depth + 1, as, bs =>
    match longestBlock bs 0 as with
    | (_, _, 0) => 0
    | (i, j, n) =>
      matchedWithin depth (as.take i) (bs.take j) + n +
        matchedWithin depth (as.drop (i + n)) (bs.drop (j + n))

/-- The number of characters in common blocks. -/
def matched (as bs : List Char) : Nat := matchedWithin as.length as bs

/-- Do at least three fifths of the characters of two texts lie in common blocks? -/
def isSimilar (a b : String) : Bool :=
  3 * (a.length + b.length) ≤ 10 * matched a.toList b.toList

/-- The share of `a` with `word` is at least that of `b`; of equal shares the later text wins. -/
def isCloser (word a b : String) : Bool :=
  let share (s : String) : Nat × Nat := (matched s.toList word.toList, s.length + word.length)
  let (m, n) := share a
  let (k, l) := share b
  k * n < m * l || (k * n = m * l && b ≤ a)

/-- The three texts that are most like a word, the closest first. -/
def closeMatches (word : String) (texts : List String) : List String :=
  ((texts.filter fun t => isSimilar t word).mergeSort (isCloser word)).take 3

end ScriptScrub.Text
