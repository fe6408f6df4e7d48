import ScriptScrub.FileTree.Lookup

/-!
# Resolving paths

The one name of what a path leads to: absolute, without links and without dots. What does not exist
is resolved by name alone, so every path has such a name unless a link leads back to itself.
-/

namespace ScriptScrub

/-- A link that leads back to itself, met at the end of this place. -/
structure LinkLoop where
  place : List String
deriving Repr, DecidableEq, Inhabited

/-- The sentence about a loop. -/
def LinkLoop.message (l : LinkLoop) : String :=
  "Symlink loop from " ++ Text.quoted (Path.absolute l.place)

namespace Entry

mutual

/-- The number of links in an entry. -/
def linkCount : Entry → Nat
  | file _ => 0
  | link _ => 1
  | folder es => linkCountAll es

/-- The number of links in some entries. -/
def linkCountAll : List (String × Entry) → Nat
  | [] => 0
  | (_, e) :: es => linkCount e + linkCountAll es

end

end Entry

namespace FileTree

/-- Goes along `path` from the resolved place `place`. The links in `active` are being followed, so
meeting one of them again is a loop; its value is the place at which it was met, with all that was
still to go. No more than `depth` links can be active. -/
def resolveFrom (t : FileTree) (depth : Nat) (active : List (List String)) (place : List String) :
    List String → Except (List String) (List String)
  | [] => .ok place
  | name :: rest =>
    if name = ".." then resolveFrom t depth active place.dropLast rest
    else match t.get? (place ++ [name]) with
      | some (.link target) =>
        if active.contains (place ++ [name]) then .error (place ++ name :: rest)
        else match depth with
          | 0 => .error (place ++ name :: rest)
          | depth + 1 =>
            match resolveFrom t depth ((place ++ [name]) :: active)
                (if Path.isAbsolute target then [] else place) (Path.parts target) with
            | .ok reached => resolveFrom t (depth + 1) active reached rest
            | .error met => .error (met ++ rest)
      | _ => resolveFrom t depth active (place ++ [name]) rest
termination_by path => (depth, path.length)

/-- The place of what a path leads to, seen from the folder `base`. A loop of links is reported
unless the way around it leads somewhere by name alone. -/
def resolve (t : FileTree) (base : List String) (path : String) :
    Except LinkLoop (List String) :=
  match t.resolveFrom t.root.linkCount [] (if Path.isAbsolute path then [] else base)
      (Path.parts path) with
  | .ok place => .ok place
  | .error met =>
    let place := Path.follow [] met
    match t.walkTo linkLimit [] place with
    | .error .tooManyLinks => .error ⟨place⟩
    | _ => .ok place

end FileTree

end ScriptScrub
