import ScriptScrub.Path.Name
import ScriptScrub.Text.Utf8

/-!
# File trees

The files of a machine as one value: folders with named entries, files with their content, and
symbolic links. A place in the tree is the list of names that leads to it from the root.
-/

namespace ScriptScrub

/-- What a name in a folder stands for. -/
inductive Entry where
  | file (content : Bytes)
  /-- A symbolic link with the path that it holds. -/
  | link (target : String)
  | folder (entries : List (String × Entry))
deriving Inhabited

/-- The entries of the root folder. -/
structure FileTree where
  entries : List (String × Entry) := []
deriving Inhabited

namespace Entry

/-- Is it a folder? A link to one is none. -/
def isFolder : Entry → Bool
  | folder _ => true
  | _ => false

/-- The entries of a folder; nothing else has any. -/
def children : Entry → List (String × Entry)
  | folder es => es
  | _ => []

/-- The entry of a name. -/
def named? (es : List (String × Entry)) (name : String) : Option Entry :=
  (es.find? (·.1 == name)).map (·.2)

/-- Gives a name another entry; a new name comes last. -/
def setNamed (es : List (String × Entry)) (name : String) (e : Entry) : List (String × Entry) :=
  if es.any (·.1 == name) then es.map fun p => if p.1 == name then (name, e) else p
  else es ++ [(name, e)]

/-- The entry at the end of some names, no link being followed. -/
def get? (e : Entry) : List String → Option Entry
  | [] => some e
  | name :: rest => (named? e.children name).bind (get? · rest)

/-- Puts an entry at the end of some names; what is no folder on the way becomes one. -/
def put (e : Entry) : List String → Entry → Entry
  | [], new => new
  | name :: rest, new =>
    folder (setNamed e.children name (put ((named? e.children name).getD (folder [])) rest new))

end Entry

namespace FileTree

/-- The root folder. -/
def root (t : FileTree) : Entry := .folder t.entries

/-- The entry at a place, no link being followed. -/
def get? (t : FileTree) (place : List String) : Option Entry := t.root.get? place

/-- Puts an entry at a place. -/
def put (t : FileTree) (place : List String) (e : Entry) : FileTree :=
  ⟨(t.root.put place e).children⟩

/-- Makes a folder at a place, unless something is there. -/
def makeFolder (t : FileTree) (place : List String) : FileTree :=
  if (t.get? place).isSome then t else t.put place (.folder [])

end FileTree

end ScriptScrub
