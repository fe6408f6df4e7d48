/-!
# The fewest digits that read back

A binary floating-point number stands for every real that rounds to it. `shortest` finds the
decimal with the fewest digits in that interval and, of those, the one nearest to the number
itself, in exact arithmetic.
-/

namespace ScriptScrub.Decimal

/-- A finite non-negative number `mantissa * 2 ^ exponent`. -/
structure Binary where
  mantissa : Nat
  exponent : Int
  /-- The gap to the number below is half the gap to the number above. -/
  narrowBelow : Bool
deriving Repr

/-- A number `digits * 10 ^ exponent`. -/
structure Scaled where
  digits : Nat
  exponent : Int
deriving Repr, DecidableEq

/-- The absolute value of a finite number in 64 bits. -/
def Binary.ofBits (bits : UInt64) : Binary :=
  let fraction : Nat := bits.toNat % Nat.pow 2 52
  let scale : Nat := bits.toNat / Nat.pow 2 52 % Nat.pow 2 11
  if scale = 0 then ⟨fraction, -1074, false⟩
  else ⟨Nat.pow 2 52 + fraction, (scale : Int) - 1075, fraction == 0 && 1 < scale⟩

/-- `n * base ^ e` as a numerator and a denominator. -/
def scaled (n base : Nat) (e : Int) : Nat × Nat :=
  if 0 ≤ e then (n * Nat.pow base e.toNat, 1) else (n, Nat.pow base (-e).toNat)

/-- `a` is at most `b`, or below `b` if the ends do not count. -/
def within (ends : Bool) (a b : Nat × Nat) : Bool :=
  if ends then a.1 * b.2 ≤ b.1 * a.2 else a.1 * b.2 < b.1 * a.2

/-- The decimal lies in the interval of reals that round to `x`. -/
def readsBack (x : Binary) (d : Scaled) : Bool :=
  let ends := x.mantissa % 2 == 0
  let value := scaled d.digits 10 d.exponent
  let low := scaled (4 * x.mantissa - (if x.narrowBelow then 1 else 2)) 2 (x.exponent - 2)
  let high := scaled (4 * x.mantissa + 2) 2 (x.exponent - 2)
  within ends low value && within ends value high

/-- The least `k` with `x < 10 ^ k`, for a number that is not zero. -/
def magnitude (x : Binary) : Int :=
  let (num, den) := scaled x.mantissa 2 x.exponent
  if den ≤ num then (Nat.toDigits 10 (num / den)).length
  else 1 - ((Nat.toDigits 10 ((den - 1) / num)).length : Int)

/-- The neighbour of `x` on the grid `10 ^ g` that reads back, the nearer one if both do. -/
def onGrid? (x : Binary) (g : Int) : Option Scaled :=
  let (num, den) := scaled x.mantissa 2 x.exponent
  let (gnum, gden) := scaled 1 10 g
  let below := num * gden / (den * gnum)
  let lo : Scaled := ⟨below, g⟩
  let hi : Scaled := ⟨below + 1, g⟩
  match readsBack x lo, readsBack x hi with
  | true, true =>
    -- the midpoint of the two decides
    if 2 * (num * gden) ≤ (2 * below + 1) * (den * gnum) then some lo else some hi
  | true, false => some lo
  | false, true => some hi
  | false, false => none

/-- Moves trailing zeros of the digits into the exponent. -/
def stripZeros : Nat → Scaled → Scaled
  | 0, d => d
  | n + 1, d =>
    if d.digits ≠ 0 ∧ d.digits % 10 = 0 then stripZeros n ⟨d.digits / 10, d.exponent + 1⟩ else d

/-- The shortest decimal that reads back as `x`. -/
def shortest (x : Binary) : Scaled :=
  if x.mantissa = 0 then ⟨0, 0⟩
  else
    let k := magnitude x
    let found := (List.range 17).findSome? fun (n : Nat) => onGrid? x (k - ((n : Int) + 1))
    stripZeros 20 (found.getD ⟨(scaled x.mantissa 2 x.exponent).1, 0⟩)

end ScriptScrub.Decimal
