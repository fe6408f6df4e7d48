import ScriptScrub.Text.Digit

/-!
# Tags of plain scalars

What a plain scalar means is seen from its text: nothing, a flag, a number, a date, the two marks
for merging and for a default value, or else just a text.
-/

namespace ScriptScrub.Yaml

/-- The tags that a document can use without introducing them. -/
inductive Tag where
  | null
  | flag
  | whole
  | number
  | date
  | text
  | list
  | table
  /-- The key under which other tables are merged in. -/
  | merge
  /-- The mark for a default value. -/
  | default
  /-- A list of single entries, repeated keys being allowed or not. -/
  | pairs
  /-- A table without values. -/
  | set
  /-- Bytes. -/
  | bytes
  /-- Any other tag. -/
  | foreign (name : String)
deriving Repr, DecidableEq, Inhabited

namespace Tag

/-- What the full names of the common tags begin with. -/
def common : String := "tag:yaml.org,2002:"

/-- The common tags by the ends of their names. -/
def names : List (String × Tag) :=
  [("null", null), ("bool", flag), ("int", whole), ("float", number), ("timestamp", date),
   ("str", text), ("seq", list), ("map", table), ("merge", merge), ("value", default),
   ("omap", pairs), ("pairs", pairs), ("set", set), ("binary", bytes)]

/-- The tag of a full name. -/
def ofName (name : String) : Tag :=
  ((names.find? fun n => common ++ n.1 == name).map (·.2)).getD (foreign name)

end Tag

open Text (isPlainDigit)

/-- The words for true and for false. -/
def flagNames : List String :=
  ["yes", "Yes", "YES", "no", "No", "NO", "true", "True", "TRUE", "false", "False", "FALSE",
   "on", "On", "ON", "off", "Off", "OFF"]

/-- A list without the sign in front. -/
def unsigned : List Char → List Char
  | '+' :: rest | '-' :: rest => rest
  | cs => cs

/-- A digit or an underscore. -/
def isDigitOrLine (c : Char) : Bool := isPlainDigit c || c == '_'

/-- Pairs of digits, the first at most five and not needed, each after a colon; there is at least
one. -/
def isSixties : List Char → Bool
  | [':', a] => isPlainDigit a
  | ':' :: a :: ':' :: rest => isPlainDigit a && isSixties (':' :: rest)
  | [':', a, b] => '0' ≤ a && a ≤ '5' && isPlainDigit b
  | ':' :: a :: b :: rest => '0' ≤ a && a ≤ '5' && isPlainDigit b && isSixties rest
  | _ => false

/-- A whole number to the base two, eight, ten or sixteen, or with sixties. -/
def looksWhole (cs : List Char) : Bool :=
  match unsigned cs with
  | '0' :: 'b' :: ds => !ds.isEmpty && ds.all fun c => c == '0' || c == '1' || c == '_'
  | '0' :: 'x' :: ds => !ds.isEmpty && ds.all fun c =>
      isDigitOrLine c || ('a' ≤ c && c ≤ 'f') || ('A' ≤ c && c ≤ 'F')
  | '0' :: ds => ds.all fun c => ('0' ≤ c && c ≤ '7') || c == '_'
  | d :: ds =>
    isPlainDigit d &&
      (ds.all isDigitOrLine || isSixties (ds.dropWhile isDigitOrLine))
  | [] => false

/-- An exponent, which has a sign; there may be none. -/
def isExponent : List Char → Bool
  | [] => true
  | e :: s :: ds =>
    (e == 'e' || e == 'E') && (s == '+' || s == '-') && !ds.isEmpty && ds.all isPlainDigit
  | _ => false

/-- A number with a point, infinity, or what is no number. -/
def looksNumber (cs : List Char) : Bool :=
  let us := unsigned cs
  match us with
  | '.' :: rest =>
    (["inf", "Inf", "INF"].contains (String.ofList rest)) ||
      (us == cs && (["nan", "NaN", "NAN"].contains (String.ofList rest) ||
        (match rest with
        | d :: _ => isPlainDigit d && isExponent (rest.dropWhile isDigitOrLine)
        | [] => false)))
  | d :: _ =>
    isPlainDigit d &&
      (match us.dropWhile isDigitOrLine with
      | '.' :: rest => isExponent (rest.dropWhile isDigitOrLine)
      | rest => match rest.reverse.dropWhile isDigitOrLine with
        | '.' :: front => isSixties front.reverse
        | _ => false)
  | [] => false

/-- Exactly `n` digits in front, and what follows them. -/
def digitsFront? (n : Nat) (cs : List Char) : Option (List Char × List Char) :=
  let ds := cs.take n
  if ds.length == n && ds.all isPlainDigit then some (ds, cs.drop n) else none

/-- One or two digits in front, and what follows them. -/
def fewDigits? (cs : List Char) : Option (List Char × List Char) :=
  (digitsFront? 2 cs).or (digitsFront? 1 cs)

/-- A date, a time and a distance from the standard time, as they are written. -/
structure Moment where
  year : Nat
  month : Nat
  day : Nat
  /-- Hours, minutes and seconds. -/
  time : Option (Nat × Nat × Nat) := none
deriving Repr, DecidableEq

/-- The end of a time: parts of a second, and a zone. -/
def isTimeEnd (cs : List Char) : Bool :=
  let cs := match cs with
    | '.' :: rest => rest.dropWhile isPlainDigit
    | _ => cs
  match cs.dropWhile fun c => c == ' ' || c == '\t' with
  | [] => cs.isEmpty
  | ['Z'] => true
  | s :: rest =>
    (s == '+' || s == '-') &&
      (match fewDigits? rest with
      | some (_, []) => true
      | some (_, ':' :: more) => more.length == 2 && more.all isPlainDigit
      | _ => false)

/-- Reads the time after a date. -/
def timeOf? (cs : List Char) : Option (Nat × Nat × Nat) := do
  let cs ← match cs with
    | 'T' :: rest | 't' :: rest => some rest
    | c :: _ =>
      if c == ' ' || c == '\t' then some (cs.dropWhile fun c => c == ' ' || c == '\t') else none
    | [] => none
  let (h, cs) ← fewDigits? cs
  let ':' :: cs := cs | none
  let (m, cs) ← digitsFront? 2 cs
  let ':' :: cs := cs | none
  let (s, cs) ← digitsFront? 2 cs
  if isTimeEnd cs then some (Text.digitsValue h, Text.digitsValue m, Text.digitsValue s) else none

/-- Reads a date, which has all its digits unless a time follows. -/
def momentOf? (cs : List Char) : Option Moment := do
  let (y, cs) ← digitsFront? 4 cs
  let '-' :: cs := cs | none
  let (m, rest) ← fewDigits? cs
  let '-' :: rest := rest | none
  let (d, rest) ← fewDigits? rest
  let moment : Moment := ⟨Text.digitsValue y, Text.digitsValue m, Text.digitsValue d, none⟩
  if rest.isEmpty then
    if m.length == 2 && d.length == 2 then some moment else none
  else return { moment with time := some (← timeOf? rest) }

/-- The tag that the text of a plain scalar stands for. -/
def plainTag (text : String) : Tag :=
  let cs := text.toList
  if ["", "~", "null", "Null", "NULL"].contains text then .null
  else if flagNames.contains text then .flag
  else if text == "<<" then .merge
  else if text == "=" then .default
  else if looksWhole cs then .whole
  else if looksNumber cs then .number
  else if (momentOf? cs).isSome then .date
  else .text

end ScriptScrub.Yaml
