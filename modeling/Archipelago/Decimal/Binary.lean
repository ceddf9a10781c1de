/-! # The exact value of a binary64 number -/

namespace Archipelago.Decimal

/-- A power of two, in a form that evaluates. -/
abbrev pow2 (n : Nat) : Nat := Nat.pow 2 n

/-- A power of ten, in a form that evaluates. -/
abbrev pow10 (n : Nat) : Nat := Nat.pow 10 n

/-- A magnitude apart from its sign. -/
inductive Magnitude where
  | nan
  | infinite
  | finite (mantissa : Nat) (exponent : Int)
deriving DecidableEq, Repr

/-- The sign bit, so that zero has a sign as well. -/
def isNegative (x : Float) : Bool := x.toBits >>> 63 == 1

/-- Finite values are `mantissa * 2 ^ exponent` with a mantissa below `2 ^ 53`. -/
def magnitude (x : Float) : Magnitude :=
  let bits := x.toBits.toNat
  let e : Nat := bits / pow2 52 % pow2 11
  let f := bits % pow2 52
  if e = 2047 then (if f = 0 then .infinite else .nan)
  else if e = 0 then .finite f (-1074)
  else .finite (f + pow2 52) ((e : Int) - 1075)

namespace Magnitude

/-- The quotient by one, when the magnitude is a whole number. -/
def whole? : Magnitude → Option Nat
  | .finite m e =>
    if 0 ≤ e then some (m * pow2 e.toNat)
    else if m % pow2 (-e).toNat = 0 then some (m / pow2 (-e).toNat) else none
  | _ => none

end Magnitude

/-- A number that is neither infinite nor no number at all. -/
def isFinite (x : Float) : Bool := (magnitude x) matches .finite ..

/-- The integer that a number is equal to, if it is one. -/
def integer? (x : Float) : Option Int :=
  (magnitude x).whole?.map fun n => if isNegative x then -(n : Int) else n

/-- Writes `m * 2 ^ e` for `m < 2 ^ 53` and `-1074 ≤ e` when it is representable. -/
def ofBinary (negative : Bool) (m : Nat) (e : Int) : Float :=
  let sign : Nat := if negative then pow2 63 else 0
  if m = 0 then Float.ofBits (UInt64.ofNat sign)
  else
    let shift := min (52 - m.log2) (e + 1074).toNat
    let m' := m * pow2 shift
    let e' := e - shift
    let body := if m' < pow2 52 then m' else (e' + 1075).toNat * pow2 52 + (m' - pow2 52)
    Float.ofBits (UInt64.ofNat (sign + body))

/-- The remainder with the sign of the dividend; it is always representable. -/
def remainder (x y : Float) : Float :=
  match magnitude x, magnitude y with
  | .finite _ _, .infinite => x
  | .finite m e, .finite n f =>
    let low := min e f
    let d := n * pow2 (f - low).toNat
    if d = 0 then 0.0 / 0.0
    else ofBinary (isNegative x) (m * pow2 (e - low).toNat % d) low
  | _, _ => 0.0 / 0.0

/-! ## Numbers with a fixed number of places -/

/-- The quotient to the nearest whole number; a half goes to the even one. -/
def roundDiv (num den : Nat) : Nat :=
  let q := num / den
  let twice := 2 * (num % den)
  if twice < den then q else if den < twice then q + 1 else q + q % 2

/-- The value without its sign in units of `10 ^ -places`. -/
def units (places m : Nat) (e : Int) : Nat :=
  if 0 ≤ e then m * pow10 places * pow2 e.toNat
  else roundDiv (m * pow10 places) (pow2 (-e).toNat)

/-- A count of units with a point before the last `places` digits. -/
def pointed (places n : Nat) : List Char :=
  let digits := Nat.toDigits 10 n
  let padded := List.replicate (places + 1 - digits.length) '0' ++ digits
  let whole := padded.length - places
  padded.take whole ++ '.' :: padded.drop whole

/-- The number without its sign, with `places` digits behind the point. -/
def fixed (places : Nat) (x : Float) : String :=
  match magnitude x with
  | .nan => "NaN"
  | .infinite => "inf"
  | .finite m e => String.ofList (pointed places (units places m e))

/-- The whole part of a number without its sign; `none` if it has no end. -/
def wholePart? (x : Float) : Option Nat :=
  match magnitude x with
  | .finite m e => some (if 0 ≤ e then m * pow2 e.toNat else m / pow2 (-e).toNat)
  | .infinite | .nan => none

end Archipelago.Decimal
