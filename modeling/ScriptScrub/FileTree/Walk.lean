import ScriptScrub.FileTree.Lookup

/-!
# Walking a folder

The names below a folder that are no folders. The walk enters folders only where it may and never
follows a link: a link to a folder is left out, any other link is a name like that of a file.
-/

namespace ScriptScrub

namespace Entry

mutual

/-- The names at or below `here`, the entry of which is given. -/
def namesAt (enter isFolderLink : List String → Bool) (here : List String) :
    Entry → List (List String)
  | file _ => [here]
  | link _ => if isFolderLink here then [] else [here]
  | folder es => if enter here then namesAmong enter isFolderLink here es else []

/-- The names at or below the entries of the folder `here`. -/
def namesAmong (enter isFolderLink : List String → Bool) (here : List String) :
    List (String × Entry) → List (List String)
  | [] => []
  | (name, e) :: es =>
    namesAt enter isFolderLink (here ++ [name]) e ++ namesAmong enter isFolderLink here es

end

end Entry

namespace FileTree

/-- Does the path lead to a folder? -/
def leadsToFolder (t : FileTree) (place : List String) : Bool :=
  match t.entryAt [] (Path.absolute place) with
  | .ok e => e.isFolder
  | .error _ => false

/-- The names below a folder, each as the way to it from there. Folders are entered where `enter`
says so of the way to them. -/
def namesBelow (t : FileTree) (enter : List String → Bool) (place : List String) :
    List (List String) :=
  match t.get? place with
  | some e => Entry.namesAmong enter (fun here => t.leadsToFolder (place ++ here)) [] e.children
  | none => []

/-- The files below a folder with what they hold; a link to a file counts as one. -/
def contents (t : FileTree) (place : List String) : List (String × Bytes) :=
  (t.namesBelow (fun _ => true) place).filterMap fun names =>
    match t.read [] (Path.absolute (place ++ names)) with
    | .ok content => some (Path.relative names, content)
    | .error _ => none

end FileTree

end ScriptScrub
