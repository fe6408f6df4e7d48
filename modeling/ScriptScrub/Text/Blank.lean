/-!
# White space

The characters that count as blank at the ends of a text, and what is left when they are taken
away there.
-/

namespace ScriptScrub.Text

/-- The blank characters outside the first 128 code points. -/
def wideBlanks : List (Nat × Nat) :=
  [(0x85, 0x85), (0xA0, 0xA0), (0x1680, 0x1680), (0x2000, 0x200A), (0x2028, 0x2029),
   (0x202F, 0x202F), (0x205F, 0x205F), (0x3000, 0x3000)]

/-- A space, a tab, a line break of any kind or one of the four separators below the space. -/
def isBlank (c : Char) : Bool :=
  let n := c.toNat
  (9 ≤ n && n ≤ 13) || (28 ≤ n && n ≤ 32) || wideBlanks.any fun (a, b) => a ≤ n && n ≤ b

/-- The six characters that the first 128 code points know as white space. -/
def isPlainBlank (c : Char) : Bool := (9 ≤ c.toNat && c.toNat ≤ 13) || c == ' '

/-- A list without the members of a class at its two ends. -/
def trimBy {α : Type} (p : α → Bool) (xs : List α) : List α :=
  ((xs.dropWhile p).reverse.dropWhile p).reverse

/-- A text without the blanks at its two ends. -/
def trim (s : String) : String := String.ofList (trimBy isBlank s.toList)

end ScriptScrub.Text
