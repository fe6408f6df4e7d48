import ScriptScrub.Text.Blank
import ScriptScrub.Text.LetterCase

/-!
# Markup of console lines

Lines for the console may hold tags in square brackets that say how the text between them looks. On
a plain console nothing is left of the tags. A backslash in front of a bracket makes it an ordinary
one. A name between colons stands for a picture, if the console has one of this name.
-/

namespace ScriptScrub.Text

/-- A part of a marked-up line. -/
inductive MarkupPiece where
  | char (c : Char)
  /-- What is before it and what is after it are looked at for pictures separately. -/
  | cut
  | opening (name : String)
  /-- Closes the named tag, or the last one. -/
  | closing (name : Option String)
deriving Repr, DecidableEq, Inhabited

/-- A tag closes what is not open. -/
structure MarkupFault where
deriving Repr, DecidableEq, Inhabited

/-- The sentence about it. -/
def MarkupFault.message (_ : MarkupFault) : String := "closing tag doesn't match any open tag"

/-- Can a tag begin with this character? -/
def isTagStart (c : Char) : Bool := ('a' ≤ c && c ≤ 'z') || c == '#' || c == '/' || c == '@'

/-- Is a character neither of the two brackets? -/
def isNoBracket (c : Char) : Bool := c != '[' && c != ']'

/-- The text of the tag that a list begins with, without its brackets, and what follows it. -/
def tagAt? : List Char → Option (List Char × List Char)
  | '[' :: c :: cs =>
    if isTagStart c then
      match cs.dropWhile isNoBracket with
      | ']' :: rest => some (c :: cs.takeWhile isNoBracket, rest)
      | _ => none
    else none
  | _ => none

/-- The ways to write attributes for short. -/
def attributeNames : List (String × String) :=
  [("b", "bold"), ("d", "dim"), ("i", "italic"), ("u", "underline"), ("uu", "underline2"),
   ("r", "reverse"), ("c", "conceal"), ("s", "strike"), ("o", "overline")]

/-- The name under which a tag is closed. -/
def tagName (cs : List Char) : String :=
  let small := String.ofList ((trimBy isBlank cs).map Char.toLower)
  (attributeNames.lookup small).getD small

/-- The piece that a tag is. What follows an equals sign is a parameter. -/
def tagPiece (body : List Char) : MarkupPiece :=
  match body.takeWhile (· != '=') with
  | '/' :: name =>
    if (trimBy isBlank name).isEmpty then .closing none else .closing (some (tagName name))
  | name => .opening (tagName name)

theorem length_of_tagAt? {cs body rest : List Char} (h : tagAt? cs = some (body, rest)) :
    rest.length < cs.length := by
  unfold tagAt? at h
  split at h
  · next c cs =>
    split at h
    · split at h
      · next rest' hs =>
        have hle := (List.dropWhile_sublist (l := cs) isNoBracket).length_le
        simp only [Option.some.injEq, Prod.mk.injEq] at h
        rw [hs, h.2] at hle
        simp only [List.length_cons] at hle ⊢
        omega
      · cases h
    · cases h
  · cases h

/-- The pieces of a line. Of the backslashes in front of a tag each pair stands for one; one left
over makes the tag ordinary text. -/
def markupPieces (cs : List Char) : List MarkupPiece :=
  match cs with
  | [] => []
  | c :: rest =>
    let slashes := (c :: rest).takeWhile (· == '\\')
    match h : tagAt? ((c :: rest).dropWhile (· == '\\')) with
    | some (body, after) =>
      let tag := if slashes.length % 2 = 1
        then .cut :: ('[' :: body ++ [']']).map .char ++ [.cut] else [tagPiece body]
      .cut :: (slashes.take (slashes.length / 2)).map .char ++ tag ++ markupPieces after
    | none =>
      if c = '\\' && rest.head? = some '[' then markupPieces rest
      else .char c :: markupPieces rest
termination_by cs.length
decreasing_by
  · have h₁ := length_of_tagAt? h
    have h₂ := (List.dropWhile_sublist (l := c :: rest) (· == '\\')).length_le
    omega
  · simp
  · simp

/-- The runs of characters that are left of a line, given the tags that are open, the last one
first. -/
def unmarked : List String → List MarkupPiece → Except MarkupFault (List (List Char))
  | _, [] => .ok [[]]
  | tags, .char c :: ps => (unmarked tags ps).map fun runs => (c :: runs.headD []) :: runs.tail
  | tags, .cut :: ps => (unmarked tags ps).map ([] :: ·)
  | tags, .opening name :: ps => (unmarked (name :: tags) ps).map ([] :: ·)
  | tags, .closing none :: ps =>
    match tags with
    | [] => .error {}
    | _ :: tags => (unmarked tags ps).map ([] :: ·)
  | tags, .closing (some name) :: ps =>
    if tags.contains name then (unmarked (tags.erase name) ps).map ([] :: ·) else .error {}

/-! ## Pictures -/

/-- The pictures of a console by their names in small letters. -/
abbrev Pictures := String → Option String

/-- A part of a run of characters. -/
inductive RunPiece where
  | char (c : Char)
  /-- A name between two colons. -/
  | code (name : List Char)
deriving Repr, DecidableEq, Inhabited

/-- Can the name of a picture hold this character? -/
def isCodeChar (c : Char) : Bool := c != ':' && !isBlank c

/-- The name between colons that a list begins with, and what follows it. -/
def codeAt? : List Char → Option (List Char × List Char)
  | ':' :: cs =>
    match cs.dropWhile isCodeChar with
    | ':' :: rest => some (cs.takeWhile isCodeChar, rest)
    | _ => none
  | _ => none

theorem length_of_codeAt? {cs name rest : List Char} (h : codeAt? cs = some (name, rest)) :
    rest.length < cs.length := by
  unfold codeAt? at h
  split at h
  · next cs =>
    split at h
    · next rest' hs =>
      have hle := (List.dropWhile_sublist (l := cs) isCodeChar).length_le
      simp only [Option.some.injEq, Prod.mk.injEq] at h
      rw [hs, h.2] at hle
      simp only [List.length_cons] at hle ⊢
      omega
    · cases h
  · cases h

/-- The pieces of a run of characters. -/
def runPieces (cs : List Char) : List RunPiece :=
  match cs with
  | [] => []
  | c :: rest =>
    match _ : codeAt? (c :: rest) with
    | some (name, after) => .code name :: runPieces after
    | none => .char c :: runPieces rest
termination_by cs.length
decreasing_by
  · next h => exact length_of_codeAt? h
  · simp

/-- The ends of names that ask for one of the two looks of a picture, and the marks that do. -/
def looks : List (List Char × Char) :=
  [("-emoji".toList, '\uFE0F'), ("-text".toList, '\uFE0E')]

/-- The picture of a name. -/
def picture? (pictures : Pictures) (name : List Char) : Option (List Char) :=
  match looks.find? fun look => look.1.isSuffixOf name with
  | some (ending, mark) =>
    (pictures (lower (String.ofList (name.take (name.length - ending.length))))).map
      (·.toList ++ [mark])
  | none => (pictures (lower (String.ofList name))).map (·.toList)

/-- What is shown of a piece of a run: a name without a picture is shown with its colons. -/
def RunPiece.shown (pictures : Pictures) : RunPiece → List Char
  | char c => [c]
  | code name => (picture? pictures name).getD (':' :: name ++ [':'])

/-- A run of characters with pictures for the names in it. -/
def pictured (pictures : Pictures) (run : List Char) : List Char :=
  (runPieces run).flatMap (·.shown pictures)

/-! ## Lines -/

/-- The characters that never reach the console: they would ring, go back or move down. -/
def isConsoleControl (c : Char) : Bool := [7, 8, 11, 12, 13].contains c.toNat

/-- Tabs lead to the next column that is a multiple of eight; one character takes one column. -/
def expandTabs : Nat → List Char → List Char
  | _, [] => []
  | column, c :: cs =>
    if c = '\t' then
      let width := 8 - column % 8
      List.replicate width ' ' ++ expandTabs (column + width) cs
    else c :: expandTabs (if c = '\n' then 0 else column + 1) cs

/-- What a plain console with some pictures shows of a marked-up line. -/
def plainLine (line : String) (pictures : Pictures := fun _ => none) :
    Except MarkupFault String :=
  (unmarked [] (markupPieces line.toList)).map fun runs =>
    let shown := (runs.flatMap (pictured pictures)).filter fun c => !isConsoleControl c
    String.ofList (expandTabs 0 shown)

end ScriptScrub.Text
