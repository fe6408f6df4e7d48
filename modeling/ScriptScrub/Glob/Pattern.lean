import ScriptScrub.Glob.CharClass
import ScriptScrub.Text.Blank
import ScriptScrub.Text.Quoted

/-!
# Glob patterns

The patterns of ignore files. A pattern is a path whose names may hold wildcards, and `**` stands
for any number of directories. A leading slash, or one in the middle, ties it to the root; a
trailing one asks for a directory; a leading `!` takes back what earlier patterns selected.
-/

namespace ScriptScrub.Glob

/-- Why a text is no pattern. -/
inductive PatternError where
  /-- Nothing is left of the text, or it ends a name in a backslash. -/
  | invalid (text : String)
  /-- A range of a character class ends before it starts. -/
  | disordered
deriving Repr, DecidableEq, Inhabited

/-- The words for what is wrong. -/
def PatternError.message : PatternError → String
  | .invalid text => "Invalid git pattern: " ++ Text.quoted text
  | .disordered => "bad character range"

/-- One wildcard or character of a name. -/
inductive Piece where
  /-- This character. -/
  | literal (c : Char)
  /-- Any character but a slash. -/
  | one
  /-- Any number of characters that are no slashes. -/
  | run
  /-- A member of the class. -/
  | oneOf (k : CharClass)
deriving Repr, DecidableEq, Inhabited

/-- One part of a pattern, between two slashes. -/
inductive Segment where
  /-- Any number of directories. -/
  | anyDepth
  /-- A name that the pieces spell. -/
  | name (pieces : List Piece)
deriving Repr, DecidableEq, Inhabited

/-- What a pattern selects. -/
inductive Shape where
  /-- All paths. -/
  | anything
  /-- All paths with a slash in them. -/
  | nested
  /-- The paths that the segments lead to, and all below them. -/
  | path (segments : List Segment)
deriving Repr, DecidableEq, Inhabited

/-- A pattern: what it selects, and whether it is to be taken back. -/
structure Pattern where
  negated : Bool
  shape : Shape
deriving Repr, DecidableEq, Inhabited

/-- Why a name cannot be read. -/
inductive NameFault where
  /-- A bracket is not closed. -/
  | openBracket
  /-- A backslash has no character to stand before. -/
  | endsInBackslash
deriving Repr, DecidableEq

/-- The pieces of a name, read with `fuel` at least its length. -/
def piecesWithin : Nat → List Char → Except NameFault (List Piece)
  | _, [] => .ok []
  | _, ['\\'] => .error .endsInBackslash
  | 0, _ => .ok []
  | fuel + 1, '\\' :: c :: rest => return .literal c :: (← piecesWithin fuel rest)
  | fuel + 1, '*' :: rest => return .run :: (← piecesWithin fuel rest)
  | fuel + 1, '?' :: rest => return .one :: (← piecesWithin fuel rest)
  | fuel + 1, '[' :: rest => do
    let some (k, rest) := CharClass.read? rest | throw .openBracket
    return .oneOf k :: (← piecesWithin fuel rest)
  | fuel + 1, c :: rest => return .literal c :: (← piecesWithin fuel rest)

/-- The pieces of a name. A lone star asks for at least one character. -/
def pieces (name : List Char) : Except NameFault (List Piece) :=
  if name = ['*'] then .ok [.one, .run] else piecesWithin name.length name

/-- The two stars that stand for any number of directories. -/
def stars : List Char := ['*', '*']

/-- A segment of a pattern. -/
def Segment.read (text : List Char) : Except NameFault Segment :=
  if text = stars then .ok .anyDepth else return .name (← pieces text)

/-- Are the ranges of all classes in order? -/
def Segment.isOrdered : Segment → Bool
  | .anyDepth => true
  | .name ps => ps.all fun
    | .oneOf k => k.isOrdered
    | _ => true

/-- The parts of a text between slashes. -/
def splitSlashes : List Char → List (List Char)
  | [] => [[]]
  | c :: cs =>
    if c = '/' then [] :: splitSlashes cs
    else match splitSlashes cs with
      | part :: parts => (c :: part) :: parts
      | [] => [[c]]

/-- The segments of a pattern tied to the root: an empty first segment is what ties, and a single
one that does not begin with it may stand at any depth. -/
def rooted : List (List Char) → List (List Char)
  | [] :: rest => rest
  | [s] => if s = stars then [s] else [stars, s]
  | [s, []] => if s = stars then [s, []] else [stars, s, []]
  | segments => segments

/-- An empty last segment stands for all that is below a directory. -/
def opened : List (List Char) → List (List Char)
  | [] => []
  | [s] => if s = [] then [stars] else [s]
  | s :: rest => s :: opened rest

/-- Any depth twice in a row is any depth. -/
def collapsed : List (List Char) → List (List Char)
  | a :: b :: rest =>
    if a = stars ∧ b = stars then collapsed (b :: rest) else a :: collapsed (b :: rest)
  | segments => segments

/-- The shape that the segments of a pattern describe; `text` is the pattern as a whole. -/
def Shape.read (text : String) (segments : List (List Char)) :
    Except PatternError (Option Shape) :=
  match collapsed (opened (rooted segments)) with
  | [] => .error (.invalid text)
  | all =>
    if all = [stars] then .ok (some (if segments.getLast? = some [] then .nested else .anything))
    else if all = [stars, ['*']] then .ok (some .anything)
    else if all = [stars, ['*'], stars] then .ok (some .nested)
    else match all.mapM Segment.read with
      | .error .openBracket => .ok none
      | .error .endsInBackslash => .error (.invalid text)
      | .ok segments =>
        if segments.all (·.isOrdered) then .ok (some (.path segments)) else .error .disordered

/-- A text without the blanks at its end. -/
def trimEnd (cs : List Char) : List Char := (cs.reverse.dropWhile Text.isBlank).reverse

/-- Reads a pattern. Empty lines, comments, a lone slash and names with an open bracket select
nothing and are no pattern at all. Blanks at the end do not count, unless a backslash stands before
the last of them. -/
def Pattern.read (text : String) : Except PatternError (Option Pattern) :=
  let cs := text.toList
  let cs := if ['\\', ' '].isSuffixOf cs then cs else trimEnd cs
  match cs with
  | [] | '#' :: _ | ['/'] => .ok none
  | '!' :: rest => return (← Shape.read text (splitSlashes rest)).map (Pattern.mk true)
  | _ => return (← Shape.read text (splitSlashes cs)).map (Pattern.mk false)

end ScriptScrub.Glob
