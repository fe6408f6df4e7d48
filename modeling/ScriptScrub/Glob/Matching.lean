import ScriptScrub.Glob.Pattern

/-!
# Matching

A pattern tied to the root reads a path from its start, step by step. A step may read the path in
several ways, so its meaning is the list of what may be left to read; a pattern matches if at least
one reading gets through all steps.
-/

namespace ScriptScrub.Glob

/-- One step of reading a path. -/
inductive Step where
  /-- Nothing, or some directories with the slash after them. -/
  | down
  /-- Nothing, or a slash and what follows it. -/
  | deeper
  /-- A slash. -/
  | slash
  /-- What a piece of a name stands for. -/
  | piece (p : Piece)
  /-- A slash, or the end of the path; a line break at the end may be left. -/
  | close
deriving Repr, DecidableEq

/-- What may follow the slash of a non-empty beginning without line breaks; `started` if the
beginning already has a character. -/
def afterSlash (started : Bool) : List Char → List (List Char)
  | [] => []
  | c :: rest =>
    (if started && c == '/' then [rest] else []) ++
      (if c == '\n' then [] else afterSlash true rest)

/-- What may follow a non-empty beginning without line breaks. -/
def afterSome : List Char → List (List Char)
  | [] => []
  | c :: rest => if c == '\n' then [] else rest :: afterSome rest

/-- What may follow a beginning without slashes. -/
def afterRun : List Char → List (List Char)
  | [] => [[]]
  | c :: rest => (c :: rest) :: (if c == '/' then [] else afterRun rest)

/-- What may be left of a text after a piece. -/
def Piece.rests : Piece → List Char → List (List Char)
  | .run, cs => afterRun cs
  | .literal c, d :: rest => if d = c then [rest] else []
  | .one, d :: rest => if d = '/' then [] else [rest]
  | .oneOf k, d :: rest => if k.contains d then [rest] else []
  | _, [] => []

/-- What may be left of a text after a step. -/
def Step.rests : Step → List Char → List (List Char)
  | .down, cs => cs :: afterSlash false cs
  | .deeper, cs => cs :: (match cs with
    | '/' :: rest => afterSome rest
    | _ => [])
  | .slash, '/' :: rest => [rest]
  | .slash, _ => []
  | .piece p, cs => p.rests cs
  | .close, [] => [[]]
  | .close, '/' :: rest => [rest]
  | .close, ['\n'] => [['\n']]
  | .close, _ => []

/-- Is there a way through all steps? -/
def readable (steps : List Step) (cs : List Char) : Bool :=
  !(steps.foldl (fun lefts step => (lefts.flatMap step.rests).eraseDups) [cs]).isEmpty

/-- The steps of the segments that follow the first one. -/
def laterSteps : List Segment → List Step
  | [] => []
  | [.anyDepth] => [.slash]
  | [.name ps] => .slash :: ps.map .piece ++ [.close]
  | .anyDepth :: rest => .deeper :: laterSteps rest
  | .name ps :: rest => .slash :: ps.map .piece ++ laterSteps rest

/-- The steps that lead along the segments. -/
def stepsOf : List Segment → List Step
  | .anyDepth :: .name ps :: rest =>
    .down :: ps.map .piece ++ (if rest.isEmpty then [.close] else laterSteps rest)
  | .anyDepth :: rest => .down :: laterSteps rest
  | .name ps :: rest => ps.map .piece ++ (if rest.isEmpty then [.close] else laterSteps rest)
  | [] => []

/-- Does a shape select a path? -/
def Shape.selects (cs : List Char) : Shape → Bool
  | .anything => cs.any (· != '\n')
  | .nested => cs.contains '/'
  | .path segments => readable (stepsOf segments) cs

/-- A path as patterns see it: without one slash, or one dot and slash, in front. -/
def subject : List Char → List Char
  | '/' :: rest => rest
  | '.' :: '/' :: rest => rest
  | cs => cs

end ScriptScrub.Glob
