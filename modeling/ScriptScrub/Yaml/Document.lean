import ScriptScrub.Config.Value
import ScriptScrub.Decimal.Reading
import ScriptScrub.Text.LetterCase
import ScriptScrub.Yaml.Layout
import ScriptScrub.Yaml.Node

/-!
# The value of a document

What the tree of a document stands for. Tables that are merged into another one give way to its own
entries, and of two entries under one key the later one counts.
-/

namespace ScriptScrub.Yaml

open Config (Value Entries)

/-- The value of a digit to a base up to sixteen. -/
def digitOf? (base : Nat) (c : Char) : Option Nat := (hexValue? c).filter (· < base)

/-- The number that digits to a base write. -/
def numberTo? (base : Nat) (cs : List Char) : Option Nat :=
  if cs.isEmpty then none else cs.foldlM (fun n c => (digitOf? base c).map (n * base + ·)) 0

/-- A text without underscores, and whether it has a minus in front; the sign is taken off. -/
def signedDigits (text : String) : Bool × List Char :=
  let cs := text.toList.filter (· != '_')
  (cs.head? == some '-', unsigned cs)

/-- The number that some digits to a base write. -/
def digitsTo (base : Nat) (cs : List Char) : Except Fault Int :=
  match numberTo? base cs with
  | some n => .ok n
  | none => .error (.notWhole base (String.ofList cs))

/-- The whole number that a text of decimal digits writes. -/
def decimal (text : String) : Except Fault Int :=
  match Decimal.whole? text with
  | some n => .ok n
  | none => .error (.notWhole 10 text)

/-- The whole number that a text writes: to the base two, eight or sixteen after a prefix, by
sixties between colons, or else decimally. -/
def wholeOf (text : String) : Except Fault Int := do
  let (negative, cs) := signedDigits text
  let s := String.ofList cs
  let n ← match cs with
    | ['0'] => pure 0
    | '0' :: 'b' :: ds => digitsTo 2 ds
    | '0' :: 'x' :: ds => digitsTo 16 ds
    | '0' :: _ => digitsTo 8 cs
    | _ =>
      if cs.contains ':' then
        (s.splitOn ":").foldlM (fun n part => return n * 60 + (← decimal part)) 0
      else decimal s
  return if negative then -n else n

/-- The number that a text writes with a point. -/
def float (text : String) : Except Fault Float :=
  match Decimal.float? text with
  | some x => .ok x
  | none => .error (.notNumber text)

/-- The number that a text writes, by sixties between colons. -/
def numberOf (text : String) : Except Fault Float := do
  let (negative, cs) := signedDigits text
  let s := Text.lower (String.ofList cs)
  let x ←
    if s == ".inf" then pure (1.0 / 0.0)
    else if s == ".nan" then pure (0.0 / 0.0)
    else if cs.contains ':' then do
      let parts ← (s.splitOn ":").mapM float
      pure (parts.reverse.foldl (fun (sum, unit) x => (sum + x * unit, unit * 60.0)) (0.0, 1.0)).1
    else float s
  return if negative then -x else x

/-- The number of days of a month. -/
def monthLength (year month : Nat) : Nat :=
  if month == 2 then if year % 4 == 0 && (year % 100 != 0 || year % 400 == 0) then 29 else 28
  else if [4, 6, 9, 11].contains month then 30
  else 31

/-- The first part of a moment that is out of its range. -/
def Moment.fault? (m : Moment) : Option Fault :=
  if m.year == 0 then some (.badDate "year 0 is out of range")
  else if m.month == 0 || 12 < m.month then some (.badDate "month must be in 1..12")
  else if m.day == 0 || monthLength m.year m.month < m.day then
    some (.badDate "day is out of range for month")
  else match m.time with
    | none => none
    | some (hour, minute, second) =>
      if 23 < hour then some (.badDate "hour must be in 0..23")
      else if 59 < minute then some (.badDate "minute must be in 0..59")
      else if 59 < second then some (.badDate "second must be in 0..59")
      else none

/-- Dates are of no use to any setting. -/
def dateOf (text : String) : Except Fault Value :=
  match momentOf? text.toList with
  | none => .error .noDate
  | some m =>
    match m.fault? with
    | some fault => .error fault
    | none => .ok .other

/-- The flag that a word stands for, whatever the case of its letters. -/
def flagOf (text : String) : Except Fault Bool :=
  let word := Text.lower text
  if ["yes", "true", "on"].contains word then .ok true
  else if ["no", "false", "off"].contains word then .ok false
  else .error (.notFlag word)

/-- The value of a scalar. -/
def scalarValue (text : String) : Tag → Except Fault Value
  | .null => .ok .null
  | .flag => .flag <$> flagOf text
  | .whole => .whole <$> wholeOf text
  | .number => .number <$> numberOf text
  | .date => dateOf text
  | .text => .ok (.text text)
  | .bytes => .ok .other
  | .list => .error (.wrongKind "seq")
  | .table => .error (.wrongKind "map")
  | .pairs => .error (.wrongKind "pairs")
  | .set => .error (.wrongKind "set")
  | .merge => .error (.unknownTag (Tag.common ++ "merge"))
  | .default => .error (.unknownTag (Tag.common ++ "value"))
  | .foreign name => .error (.unknownTag name)

/-- The value of a key. -/
def Node.keyValue : Node → Except Fault Value
  | .scalar .default text => .ok (.text text)
  | .scalar tag text => scalarValue text tag
  | _ => .error .badKey

/-- Is it the key under which other tables are merged in? -/
def Node.isMerge : Node → Bool
  | .scalar .merge _ => true
  | _ => false

namespace Node

mutual

/-- The value of a part of a document. -/
def value : Node → Except Fault Value
  | scalar tag text => scalarValue text tag
  | items tag ns => do
    let vs ← values ns
    match tag with
    | .list => return .list vs
    | .pairs => return .list (vs.map fun _ => .other)
    | .foreign name => throw (.unknownTag name)
    | _ => throw (.wrongKind "sequence")
  | keys tag es => do
    let (merged, own) ← pairsOf es
    match tag with
    | .table => return .table ((merged ++ own).foldl (fun t e => Entries.put t e.1 e.2) [])
    | .set => return .other
    | .foreign name => throw (.unknownTag name)
    | _ => throw (.wrongKind "mapping")
  | cycle => .ok .other

/-- The values of some parts. -/
def values : List Node → Except Fault (List Value)
  | [] => .ok []
  | n :: ns => return (← value n) :: (← values ns)

/-- The entries of a table: those that are merged in, and its own. -/
def pairsOf : List (Node × Node) → Except Fault (List (Value × Value) × List (Value × Value))
  | [] => .ok ([], [])
  | (k, v) :: rest => do
    if k.isMerge then
      let more ← mergedOf v
      let (merged, own) ← pairsOf rest
      return (more ++ merged, own)
    else
      let entry := (← keyValue k, ← value v)
      let (merged, own) ← pairsOf rest
      return (merged, entry :: own)

/-- The entries that a part brings when it is merged into a table: those of a table, or of each
table of a list, the first one counting most. -/
def mergedOf : Node → Except Fault (List (Value × Value))
  | keys _ es => do
    let (merged, own) ← pairsOf es
    return merged ++ own
  | items _ ns => mergedAll ns
  | _ => .error .badMerge

/-- The entries of each table of a list, the last table coming first. -/
def mergedAll : List Node → Except Fault (List (Value × Value))
  | [] => .ok []
  | .keys _ es :: ns => do
    let (merged, own) ← pairsOf es
    return (← mergedAll ns) ++ (merged ++ own)
  | _ :: _ => .error .badMerge

end

end Node

/-- The value of a text, if there is a document in it. -/
def read (text : List Char) : Except Fault Value := do
  match ← Node.ofTokens? (← tokens (unifyLineEnds text)) with
  | none => return .null
  | some n => n.value

end ScriptScrub.Yaml
