import ScriptScrub.Text.Blank
import ScriptScrub.Text.Digit

/-!
# Reading numbers

Whole numbers and floating-point numbers as people type them: blanks around them, digits of any
script, single underscores between digits, a sign, a fraction, an exponent, or the name of an
infinity or of the value that is not a number.
-/

namespace ScriptScrub.Decimal

/-- The most digits that a whole number may be written with. -/
def maxWholeDigits : Nat := 4300

/-- A text with every digit in its plain form and every wide blank as a space. A text of plain
characters only is left as it is. -/
def plainForm (s : List Char) : List Char :=
  if s.all fun c => c.toNat < 128 then s
  else s.map fun c =>
    if c.toNat < 127 then c
    else if Text.isBlank c then ' '
    else match Text.digitValue? c with
      | some d => Char.ofNat (48 + d)
      | none => c

/-- The number without the blanks around it. -/
def numeral (s : String) : List Char := Text.trimBy Text.isPlainBlank (plainForm s.toList)

/-- The sign in front of a number, and the rest. -/
def signed : List Char → Bool × List Char
  | '-' :: cs => (true, cs)
  | '+' :: cs => (false, cs)
  | cs => (false, cs)

/-- The digits at the front, single underscores between them left out, and the rest. An underscore
that no digit follows belongs to the rest. -/
def digitRun : List Char → List Char × List Char
  | [] => ([], [])
  | c :: cs =>
    if Text.isPlainDigit c then
      match cs with
      | '_' :: d :: rest =>
        if Text.isPlainDigit d then
          let (ds, tail) := digitRun (d :: rest)
          (c :: ds, tail)
        else ([c], cs)
      | cs =>
        let (ds, tail) := digitRun cs
        (c :: ds, tail)
    else ([], c :: cs)

/-- The whole number that a text writes. -/
def whole? (s : String) : Option Int :=
  let (negative, cs) := signed (numeral s)
  match digitRun cs with
  | (ds, []) =>
    if ds.isEmpty || maxWholeDigits < ds.length then none
    else some (if negative then -(Text.digitsValue ds : Int) else Text.digitsValue ds)
  | _ => none

/-- `digits * 10 ^ exponent`, rounded to nearest. Values beyond every number, or below half the
least one, are decided without being computed. -/
def toFloat (digits : Nat) (exponent : Int) : Float :=
  let top := exponent + ((Text.digitsOf digits).length : Int)
  if digits = 0 ∨ top < -330 then 0.0
  else if 310 < top then 1.0 / 0.0
  else if 0 ≤ exponent then Float.ofScientific digits false exponent.toNat
  else Float.ofScientific digits true (-exponent).toNat

/-- The exponent of a number: nothing, or a letter and a signed number to the end. -/
def exponent? : List Char → Option Int
  | [] => some 0
  | c :: cs =>
    if c = 'e' ∨ c = 'E' then
      let (negative, cs) := signed cs
      match digitRun cs with
      | (d :: ds, []) =>
        let n : Int := Text.digitsValue (d :: ds)
        some (if negative then -n else n)
      | _ => none
    else none

/-- The value that is not a number. -/
def notANumber : Float := 0.0 / 0.0

/-- The number without a sign that a text writes. -/
def magnitude? (cs : List Char) : Option Float :=
  let word := String.ofList (cs.map Char.toLower)
  if word == "inf" || word == "infinity" then some (1.0 / 0.0)
  else if word == "nan" then some notANumber
  else
    let (ds, rest) := digitRun cs
    let (fs, rest) := match rest with
      | '.' :: rest => digitRun rest
      | rest => ([], rest)
    if ds.isEmpty && fs.isEmpty then none
    else (exponent? rest).map fun e => toFloat (Text.digitsValue (ds ++ fs)) (e - fs.length)

/-- The floating-point number that a text writes. -/
def float? (s : String) : Option Float :=
  let (negative, cs) := signed (numeral s)
  (magnitude? cs).map fun x => if negative then -x else x

end ScriptScrub.Decimal
