import ScriptScrub.Decimal.Shortest
import ScriptScrub.Text.Digit

/-!
# Laying out a decimal

Where the point goes, when an exponent is written and how: the decisions of a format are one
record, and `render` follows it.
-/

namespace ScriptScrub.Decimal

/-- The decisions of a number format. -/
structure Layout where
  /-- The least decimal exponent of a number written without an exponent. -/
  leastPlain : Int
  /-- The greatest decimal exponent of a number written without an exponent. -/
  greatestPlain : Int
  /-- What ends a whole number written without an exponent. -/
  wholeEnd : String
  /-- The least number of digits of an exponent. -/
  exponentWidth : Nat
  infinity : String
  notANumber : String

/-- Digits with zeros in front up to a width. -/
def padded (width : Nat) (ds : List Char) : List Char :=
  List.replicate (width - ds.length) '0' ++ ds

/-- A non-negative decimal as text. -/
def Layout.place (l : Layout) (d : Scaled) : String :=
  let ds := Text.digitsOf d.digits
  let top := d.exponent + (ds.length : Int) - 1
  if l.leastPlain ≤ top ∧ top ≤ l.greatestPlain then
    if 0 ≤ d.exponent then
      String.ofList (ds ++ List.replicate d.exponent.toNat '0') ++ l.wholeEnd
    else if 0 ≤ top then
      let whole := (top + 1).toNat
      String.ofList (ds.take whole ++ '.' :: ds.drop whole)
    else String.ofList ('0' :: '.' :: (List.replicate (-top - 1).toNat '0' ++ ds))
  else
    let lead := match ds with
      | [] => []
      | c :: [] => [c]
      | c :: rest => c :: '.' :: rest
    let sign := if top < 0 then '-' else '+'
    String.ofList (lead ++ 'e' :: sign :: padded l.exponentWidth (Text.digitsOf top.natAbs))

/-- A floating-point number as text. -/
def Layout.render (l : Layout) (x : Float) : String :=
  if x.isNaN then l.notANumber
  else
    let sign := if x.toBits.toNat / Nat.pow 2 63 = 1 then "-" else ""
    if x.isInf then sign ++ l.infinity
    else sign ++ l.place (shortest (Binary.ofBits x.toBits))

end ScriptScrub.Decimal
