import Archipelago.Decimal.Reader
import Archipelago.Ron
import Archipelago.Ron.Quoted

/-! # Numbers and ranges of RON -/

namespace Archipelago.Ron

/-- Digits to some base, perhaps with underscores behind the first of them. -/
def digitsIn? (base : Nat) (cs : Chars) : Option Nat :=
  if cs.head? = some '_' || cs.isEmpty then none
  else (cs.filter (· ≠ '_')).foldlM (fun n c => do
    let d ← Text.hexValue? c
    if d < base then some (n * base + d) else none) 0

/-- A whole number, in a base that its first letters tell. -/
def natDigits? : Chars → Option Nat
  | '0' :: 'x' :: cs => digitsIn? 16 cs
  | '0' :: 'b' :: cs => digitsIn? 2 cs
  | '0' :: 'o' :: cs => digitsIn? 8 cs
  | cs => digitsIn? 10 cs

/-- A number without its sign, and whether the sign is a minus. -/
def unsign : Chars → Bool × Chars
  | '+' :: cs => (false, cs)
  | '-' :: cs => (true, cs)
  | cs => (false, cs)

/-- The least and the greatest number of each type that may stand behind the digits, and of
numbers without one. -/
def wholeTypes : List (String × Int × Int) :=
  [("", -0x8000000000000000, 0xffffffffffffffff),
    ("i8", -0x80, 0x7f), ("i16", -0x8000, 0x7fff), ("i32", -0x80000000, 0x7fffffff),
    ("i64", -0x8000000000000000, 0x7fffffffffffffff),
    ("u8", 0, 0xff), ("u16", 0, 0xffff), ("u32", 0, 0xffffffff), ("u64", 0, 0xffffffffffffffff)]

/-- A whole number that fits its type. -/
def whole? (cs : Chars) : Option (String × Int) := do
  let (negative, cs) := unsign cs
  let isDigit := fun c => c ≠ 'i' && c ≠ 'u'
  let type := String.ofList (cs.dropWhile isDigit)
  let n ← natDigits? (cs.takeWhile isDigit)
  let value : Int := if negative then -n else n
  let (least, greatest) ← wholeTypes.lookup type
  if least ≤ value && value ≤ greatest then some (type, value) else none

/-- Every underscore follows a digit, or another that does. -/
def underscoresFit : (afterDigit : Bool) → Chars → Bool
  | _, [] => true
  | afterDigit, c :: cs =>
    if c = '_' then afterDigit && underscoresFit afterDigit cs else underscoresFit c.isDigit cs

/-- The characters that numbers with a point are made of. -/
def isRealChar (c : Char) : Bool :=
  c.isDigit || c = 'e' || c = 'E' || c = '.' || c = '+' || c = '-' || c = '_'

/-- A real number, an infinity or no number, with or without its type. -/
def isReal (cs : Chars) : Bool :=
  let body := (unsign cs).2
  let typed := ['f', '3', '2'].isSuffixOf body || ['f', '6', '4'].isSuffixOf body
  let core := if typed then body.take (body.length - 3) else body
  core = ['i', 'n', 'f'] || core = ['N', 'a', 'N'] ||
    core.all isRealChar && underscoresFit false core &&
      (Decimal.unsigned? (core.filter (· ≠ '_'))).isSome

/-- The characters that numbers are made of. -/
def isNumberChar (c : Char) : Bool := isRealChar c || c.isAlpha

/-- The characters of a number, which two points end. -/
def numberChars : Chars → Chars × Chars
  | [] => ([], [])
  | c :: cs =>
    if !isNumberChar c || ['.', '.'].isPrefixOf (c :: cs) then ([], c :: cs)
    else
      let (found, rest) := numberChars cs
      (c :: found, rest)

/-- A number. Only one that fits 64 bits and is of their type, if of any, is kept. -/
def number : Reader Ron := fun cs =>
  let (found, rest) := numberChars cs
  match whole? found with
  | some (type, value) =>
    some (if (type = "" || type = "u64") && 0 ≤ value then nat value.toNat else other, rest)
  | none => if isReal found then some (other, rest) else none

/-- The names of numbers that have no digits. -/
def namedNumber : Reader Unit := oneOf ["inf", "inff32", "inff64", "NaN", "NaNf32", "NaNf64"]

/-- Is this the start of a number? -/
def startsNumber (c : Char) : Bool := c.isDigit || c = '+' || c = '-' || c = '.'

/-- A number in any of its forms. -/
def bound : Reader Ron := fun cs =>
  match namedNumber cs with
  | some (_, rest) => some (other, rest)
  | none =>
    match quotedByte cs with
    | some (_, rest) => some (other, rest)
    | none => if cs.head?.any startsNumber then number cs else none

/-- What follows the two points of a range: a number, which may be left out unless it belongs to
the range. -/
def rangeEnd : Chars → Option Chars
  | '=' :: cs => do
    let (_, rest) ← bound (← blanks cs)
    some rest
  | cs => do
    let cs ← blanks cs
    match bound cs with
    | some (_, rest) => some rest
    | none => some cs

/-- A number, or a range that starts with it. -/
def numberOrRange : Reader Ron := fun cs => do
  let (n, rest) ← bound cs
  match ← blanks rest with
  | '.' :: '.' :: upper => (rangeEnd upper).map (other, ·)
  | rest => some (n, rest)

end Archipelago.Ron
