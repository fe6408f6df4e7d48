import ScriptScrub.Text.Printable
import ScriptScrub.Text.Utf8

/-!
# Quoted texts

A text between quotes, as it is shown inside a message: the quotes are single unless the text holds
a single and no double one, and whatever does not stand for itself is written as an escape.
-/

namespace ScriptScrub.Text

/-- The digits of `n` to the base sixteen, at least `count` of them. -/
def hexDigits (count n : Nat) : List Char :=
  let ds := Nat.toDigits 16 n
  List.replicate (count - ds.length) '0' ++ ds

/-- One character of a quoted text. -/
def quotedChar (quote c : Char) : List Char :=
  if c == '\\' || c == quote then ['\\', c]
  else if c == '\n' then ['\\', 'n']
  else if c == '\r' then ['\\', 'r']
  else if c == '\t' then ['\\', 't']
  else if isPrintable c then [c]
  else if c.toNat ≤ 0xFF then '\\' :: 'x' :: hexDigits 2 c.toNat
  else if c.toNat ≤ 0xFFFF then '\\' :: 'u' :: hexDigits 4 c.toNat
  else '\\' :: 'U' :: hexDigits 8 c.toNat

/-- The quote that goes around a text. -/
def quoteFor (cs : List Char) : Char := if cs.contains '\'' && !cs.contains '"' then '"' else '\''

/-- A text between quotes. -/
def quoted (s : String) : String :=
  let cs := s.toList
  let q := quoteFor cs
  String.ofList (q :: cs.flatMap (quotedChar q) ++ [q])

end ScriptScrub.Text
