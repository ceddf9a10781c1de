import Archipelago.Decimal.Binary

/-! # The fewest decimal digits that read back -/

namespace Archipelago.Decimal

/-- Which of two equally near digit strings is taken. -/
inductive Tie where
  | up
  | even
deriving DecidableEq, Repr

/-- The digits of `digits * 10 ^ exponent`. -/
structure Scaled where
  digits : Nat
  exponent : Int
deriving DecidableEq, Repr

/-- A positive rational with its rounding interval, all over one denominator. -/
structure Rounding where
  low : Nat
  value : Nat
  high : Nat
  unit : Nat
  closed : Bool
deriving DecidableEq, Repr

namespace Rounding

/-- The reals that round to `m * 2 ^ e`, ends included when `m` is even. The gap below is
half as wide at a power of two that is not the least normal one. -/
def ofBinary (m : Nat) (e : Int) : Rounding :=
  let below := if m = pow2 52 && e != -1074 then 1 else 2
  let up := pow2 (e - 2).toNat
  let down := pow2 (2 - e).toNat
  { low := (4 * m - below) * up, value := 4 * m * up, high := (4 * m + 2) * up, unit := down,
    closed := m % 2 = 0 }

/-- Does a fraction round to the number in question? -/
def contains (r : Rounding) (num den : Nat) : Bool :=
  if r.closed then r.low * den ≤ num * r.unit && num * r.unit ≤ r.high * den
  else r.low * den < num * r.unit && num * r.unit < r.high * den

/-- The multiple of `10 ^ k` nearest to the value, of those its neighbours that read back. -/
def onGrid? (tie : Tie) (r : Rounding) (k : Int) : Option Nat :=
  let num := pow10 k.toNat
  let den := pow10 (-k).toNat
  let step := num * r.unit
  let scaled := r.value * den
  let a := scaled / step
  let rest := scaled % step
  let inLow := r.contains (a * num) den
  let inHigh := r.contains ((a + 1) * num) den
  if inLow && inHigh then
    if 2 * rest < step then some a
    else if step < 2 * rest then some (a + 1)
    else match tie with
      | .up => some (a + 1)
      | .even => some (if a % 2 = 0 then a else a + 1)
  else if inLow && a != 0 then some a
  else if inHigh then some (a + 1)
  else none

/-- The exponent of the leading decimal digit of the value. -/
def lead (r : Rounding) : Int :=
  if r.unit ≤ r.value then
    ((Nat.toDigits 10 (r.value / r.unit)).length : Int) - 1
  else
    -((Nat.toDigits 10 ((r.unit - 1) / r.value)).length : Int)

/-- Tries coarse grids before fine ones, `n` of them, the first one of size `10 ^ k`. -/
def search (tie : Tie) (r : Rounding) : Nat → Int → Scaled
  | 0, k => ⟨(r.value * pow10 (-k).toNat) / (pow10 k.toNat * r.unit), k⟩
  | n + 1, k =>
    match r.onGrid? tie k with
    | some d => ⟨d, k⟩
    | none => search tie r n (k - 1)

end Rounding

/-- Seventeen digits always suffice. -/
def shortest (tie : Tie) (m : Nat) (e : Int) : Scaled :=
  let r := Rounding.ofBinary m e
  r.search tie 17 r.lead

end Archipelago.Decimal
