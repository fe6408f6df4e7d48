/-!
# Path texts

Paths as they are written, without a look at any file. A path that begins with a slash is absolute;
empty parts and single dots say nothing, while two dots lead up.
-/

namespace ScriptScrub.Path

/-- The texts between the slashes of a path. -/
def segments (path : String) : List String := (path.toList.splitOn '/').map String.ofList

/-- The components of a path; empty ones and single dots say nothing and are left out. -/
def parts (path : String) : List String :=
  (segments path).filter fun part => part != "" && part != "."

/-- Does a path start at the root of all files? -/
def isAbsolute (path : String) : Bool := path.startsWith "/"

/-- The absolute path along some names. -/
def absolute (names : List String) : String := "/" ++ "/".intercalate names

/-- The path along some names from a place that is not told; a dot if there are none. -/
def relative (names : List String) : String :=
  if names.isEmpty then "." else "/".intercalate names

/-- A path without the parts that say nothing. Exactly two slashes in front are kept. -/
def tidy (path : String) : String :=
  if path.startsWith "//" && !path.startsWith "///" then "/" ++ absolute (parts path)
  else if isAbsolute path then absolute (parts path)
  else relative (parts path)

/-- Goes along a path from a directory, two dots leading up again; above the root there is only the
root. -/
def follow (base : List String) (path : List String) : List String :=
  path.foldl (fun at_ part => if part = ".." then at_.dropLast else at_ ++ [part]) base

/-- The last component, or nothing. -/
def name (path : String) : String := (parts path).getLastD ""

/-- The last dot of a name and what follows it, unless the dot is the first or the last
character. -/
def suffixOf (name : String) : String :=
  let cs := name.toList
  let afterDot := (cs.reverse.takeWhile (· != '.')).reverse
  if afterDot.length + 1 < cs.length ∧ afterDot ≠ [] then String.ofList ('.' :: afterDot) else ""

/-- The suffix of a path's last component. -/
def suffix (path : String) : String := suffixOf (name path)

/-- What follows the last slash. -/
def baseName (path : String) : String := (segments path).getLastD ""

end ScriptScrub.Path
