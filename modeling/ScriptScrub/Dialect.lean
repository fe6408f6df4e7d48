import ScriptScrub.Path.Name
import ScriptScrub.Text.LetterCase

/-!
# Script dialects

The dialects that can be parsed, and how a file's name tells which one it is written in.
-/

namespace ScriptScrub

/-- A dialect of the script language. -/
inductive Dialect where
  | javascript
  | typescript
  /-- TypeScript with markup. -/
  | tsx
deriving Repr, DecidableEq, Inhabited

namespace Dialect

/-- The name of a dialect. -/
def name : Dialect → String
  | javascript => "javascript"
  | typescript => "typescript"
  | tsx => "tsx"

/-- The suffixes of script files, in small letters, with their dialects. -/
def suffixes : List (String × Dialect) :=
  [(".js", javascript), (".jsx", javascript), (".ts", typescript), (".tsx", tsx)]

/-- The dialect of the file at a path; the letter case of its suffix does not matter. -/
def ofPath? (path : String) : Option Dialect := suffixes.lookup (Text.lower (Path.suffix path))

end Dialect

end ScriptScrub
