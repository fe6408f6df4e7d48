import ScriptScrub.FileTree.Basic
import ScriptScrub.Text.Quoted

/-!
# Looking up paths

How a path leads to a file or a folder: links are followed wherever they stand, two dots lead up
from where the path has come to, and at most forty links may be met on the way.
-/

namespace ScriptScrub

/-- Why a path leads nowhere, or not to what is wanted. -/
inductive FileError where
  | missing
  | notFolder
  | isFolder
  | tooManyLinks
  /-- The machine does not allow it. -/
  | denied
deriving Repr, DecidableEq, Inhabited

namespace FileError

/-- The number and the words for an error. -/
def text : FileError → String
  | missing => "[Errno 2] No such file or directory"
  | notFolder => "[Errno 20] Not a directory"
  | isFolder => "[Errno 21] Is a directory"
  | tooManyLinks => "[Errno 40] Too many levels of symbolic links"
  | denied => "[Errno 13] Permission denied"

/-- The sentence about an error at a path. -/
def message (e : FileError) (path : String) : String := e.text ++ ": " ++ Text.quoted path

end FileError

namespace FileTree

/-- The number of links that a look-up may follow. -/
def linkLimit : Nat := 40

/-- Goes along `path` from the folder `place`, following at most `links` links; the place that is
reached holds a file or a folder. -/
def walkTo (t : FileTree) (links : Nat) (place : List String) :
    List String → Except FileError (List String)
  | [] => .ok place
  | name :: rest =>
    match t.get? place with
    | some (.folder es) =>
      if name = ".." then walkTo t links place.dropLast rest
      else match Entry.named? es name with
        | none => .error .missing
        | some (.link target) =>
          match links with
          | 0 => .error .tooManyLinks
          | links + 1 =>
            walkTo t links (if Path.isAbsolute target then [] else place)
              (Path.parts target ++ rest)
        | some _ => walkTo t links (place ++ [name]) rest
    | _ => .error .notFolder
termination_by path => (links, path.length)

/-- The place that a path leads to, seen from the folder `base`. -/
def locate (t : FileTree) (base : List String) (path : String) :
    Except FileError (List String) :=
  t.walkTo linkLimit (if Path.isAbsolute path then [] else base) (Path.parts path)

/-- What a path leads to, seen from the folder `base`. -/
def entryAt (t : FileTree) (base : List String) (path : String) : Except FileError Entry := do
  let place ← t.locate base path
  match t.get? place with
  | some e => return e
  | none => throw .missing

/-- Does a path lead to something? -/
def leads (t : FileTree) (base : List String) (path : String) : Bool :=
  (t.entryAt base path).isOk

/-- The content of the file that a path leads to. -/
def read (t : FileTree) (base : List String) (path : String) : Except FileError Bytes := do
  match ← t.entryAt base path with
  | .file content => return content
  | _ => throw .isFolder

/-- Gives the file that a path leads to another content. -/
def write (t : FileTree) (base : List String) (path : String) (content : Bytes) :
    Except FileError FileTree := do
  let place ← t.locate base path
  match t.get? place with
  | some (.file _) => return t.put place (.file content)
  | some _ => throw .isFolder
  | none => throw .missing

end FileTree

end ScriptScrub
