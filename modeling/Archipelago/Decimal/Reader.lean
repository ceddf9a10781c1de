import Archipelago.Decimal.Binary

/-! # Reading decimal text -/

namespace Archipelago.Decimal

/-- The number that some digits stand for. -/
def digitsValue (ds : List Char) : Nat := ds.foldl (fun n d => n * 10 + (d.toNat - 48)) 0

/-- The number nearest to `n * 10 ^ e`; far exponents are decided by the digit count. -/
def nearest (n : Nat) (e : Int) : Float :=
  let size := e + (Nat.toDigits 10 n).length
  if n = 0 then 0.0
  else if 400 < size then 1.0 / 0.0
  else if size < -400 then 0.0
  else if 0 ≤ e then Float.ofScientific n false e.toNat
  else Float.ofScientific n true (-e).toNat

/-- An optional sign, then digits to the end. -/
def exponent? : List Char → Option Int
  | [] => none
  | c :: cs =>
    let negative := c = '-'
    let ds := if c = '+' || c = '-' then cs else c :: cs
    if ds.isEmpty || !ds.all Char.isDigit then none
    else some (if negative then -(digitsValue ds : Int) else digitsValue ds)

/-- Digits with at most one point and at least one digit, and an optional exponent. -/
def unsigned? (cs : List Char) : Option Float :=
  let whole := cs.takeWhile Char.isDigit
  let afterWhole := cs.dropWhile Char.isDigit
  let (frac, rest) := match afterWhole with
    | '.' :: r => (r.takeWhile Char.isDigit, r.dropWhile Char.isDigit)
    | r => ([], r)
  if whole.isEmpty && frac.isEmpty then none
  else
    let n := digitsValue (whole ++ frac)
    match rest with
    | [] => some (nearest n (-(frac.length : Int)))
    | c :: r =>
      if c = 'e' || c = 'E' then
        (exponent? r).map fun e => nearest n (e - frac.length)
      else none

/-- The numbers that have names, in letters of either case. -/
def named? (cs : List Char) : Option Float :=
  let s := String.ofList (cs.map Char.toLower)
  if s = "inf" || s = "infinity" then some (1.0 / 0.0)
  else if s = "nan" then some (0.0 / 0.0)
  else none

/-- Decimal text, signed, or the name of an infinity or of no number. -/
def read? (s : String) : Option Float :=
  match s.toList with
  | '-' :: cs => ((unsigned? cs).or (named? cs)).map Float.neg
  | '+' :: cs => (unsigned? cs).or (named? cs)
  | cs => (unsigned? cs).or (named? cs)

end Archipelago.Decimal
