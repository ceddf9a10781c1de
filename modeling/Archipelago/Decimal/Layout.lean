import Archipelago.Decimal.Shortest

/-! # Written forms of numbers -/

namespace Archipelago.Decimal

/-- How the digits of a number are laid out. -/
structure Layout where
  tie : Tie
  /-- The exponents of the leading digit that are written positionally; all when `none`. -/
  positional : Option (Int × Int)
  /-- A whole number keeps a point and a zero. -/
  keepsPoint : Bool
  /-- A positive exponent carries its sign. -/
  signsExponent : Bool
deriving DecidableEq, Repr

/-- Zeros at the end carry no information. -/
def dropZeros (cs : List Char) : List Char := (cs.reverse.dropWhile (· = '0')).reverse

namespace Layout

/-- The plain form of a number: never an exponent. -/
def plain : Layout := ⟨.up, none, false, false⟩

/-- The form of a number in JSON text that is not written as an integer. -/
def json : Layout := ⟨.even, some (-5, 15), true, true⟩

/-- The form of a number inside a quoted token. -/
def quoted : Layout := ⟨.up, some (-4, 15), true, false⟩

/-- Digits `ds`, the first of which stands for a multiple of `10 ^ e`. -/
def place (l : Layout) (ds : List Char) (e : Int) : List Char :=
  if e < 0 then ['0', '.'] ++ List.replicate ((-e).toNat - 1) '0' ++ ds
  else
    let wholeLength := e.toNat + 1
    let whole := ds.take wholeLength ++ List.replicate (wholeLength - ds.length) '0'
    match ds.drop wholeLength with
    | [] => if l.keepsPoint then whole ++ ['.', '0'] else whole
    | frac => whole ++ ['.'] ++ frac

/-- The digits with a point behind the first of them, and an exponent. -/
def scientific (l : Layout) (ds : List Char) (e : Int) : List Char :=
  let head := match ds with
    | [] => []
    | [d] => [d]
    | d :: rest => d :: '.' :: rest
  let sign := if e < 0 then ['-'] else if l.signsExponent then ['+'] else []
  head ++ ['e'] ++ sign ++ Nat.toDigits 10 e.natAbs

/-- A number without its sign. -/
def magnitudeChars (l : Layout) : Magnitude → List Char
  | .nan => ['N', 'a', 'N']
  | .infinite => ['i', 'n', 'f']
  | .finite m e =>
    if m = 0 then l.place ['0'] 0
    else
      let s := shortest l.tie m e
      let all := Nat.toDigits 10 s.digits
      let lead := s.exponent + all.length - 1
      let ds := dropZeros all
      match l.positional with
      | none => l.place ds lead
      | some (a, b) => if a ≤ lead && lead ≤ b then l.place ds lead else l.scientific ds lead

/-- A number as a text. What is no number has no sign. -/
def format (l : Layout) (x : Float) : String :=
  let m := magnitude x
  let sign := if isNegative x && m != .nan then ['-'] else []
  String.ofList (sign ++ l.magnitudeChars m)

end Layout

end Archipelago.Decimal
