import Archipelago.Json
import Archipelago.Decimal.Reader
import Archipelago.Text.Search

/-! # Reading JSON text -/

namespace Archipelago.Json

/-- What is still to be read. -/
abbrev Chars := List Char

/-- A reader takes a value from the front of a text. -/
abbrev Reader (α : Type) := Chars → Option (α × Chars)

/-- All that is behind the blanks. -/
def skipBlanks (cs : Chars) : Chars :=
  cs.dropWhile fun c => c = ' ' || c = '\t' || c = '\n' || c = '\r'

namespace Number

/-- The powers of ten a number is scaled by in one step. -/
def largestPower : Nat := 308

/-- A power of ten as a number. -/
def powerOfTen (n : Nat) : Float := Float.ofScientific 1 false n

/-- The significand is rounded first and then scaled by one power of ten, so digits that fit no
53 bits may lose a unit in the last place. -/
def scale (significand : Nat) (e : Int) : Option Float :=
  let f := Float.ofNat significand
  if 0 ≤ e then
    if e ≤ largestPower then
      let x := f * powerOfTen e.toNat
      if Decimal.isFinite x then some x else none
    else if significand = 0 then some f else none
  else if -largestPower ≤ e then some (f / powerOfTen (-e).toNat)
  else if significand = 0 then some f
  else if -2 * largestPower ≤ e then
    some (f / powerOfTen largestPower / powerOfTen (-e - largestPower).toNat)
  else some 0.0

/-- A significand has room in 64 bits. -/
def fits (n : Nat) : Bool := n < 0x10000000000000000

/-- Takes digits while the significand fits 64 bits: the significand, how many were taken, and
the digits left over. -/
def gather : Nat → Nat → Chars → Nat × Nat × Chars
  | sig, taken, [] => (sig, taken, [])
  | sig, taken, c :: cs =>
    let next := sig * 10 + (c.toNat - 48)
    if fits next then gather next (taken + 1) cs else (sig, taken, c :: cs)

/-- The value of a number text given by its sign, digit runs and exponent. -/
def value (negative : Bool) (whole : Chars) (frac : Option Chars) (exp : Option Int) : Json :=
  let (sig, _, dropped) := gather 0 0 whole
  let (sig, taken, _) := gather sig 0 (frac.getD [])
  let e : Int := dropped.length - taken
  let signed (x : Float) : Json := .float (if negative then -x else x)
  if frac.isNone && exp.isNone && dropped.isEmpty then
    if !negative then .int sig
    else if sig = 0 || 0x8000000000000000 < sig then .float (-(Float.ofNat sig))
    else .int (-(sig : Int))
  else
    match scale sig (e + exp.getD 0) with
    | some x => signed x
    | none => .unreadable

/-- The digits in front, and what is behind them. -/
def digits (cs : Chars) : Chars × Chars := (cs.takeWhile Char.isDigit, cs.dropWhile Char.isDigit)

/-- The exponent after its letter. -/
def exponent : Reader Int := fun cs =>
  let (negative, cs) := match cs with
    | '+' :: r => (false, r)
    | '-' :: r => (true, r)
    | r => (false, r)
  let (ds, rest) := digits cs
  if ds.isEmpty then none
  else
    let n : Int := Decimal.digitsValue ds
    some (if negative then -n else n, rest)

/-- The digits after a point, if there is one. -/
def fraction : Reader (Option Chars)
  | '.' :: cs =>
    let (ds, rest) := digits cs
    if ds.isEmpty then none else some (some ds, rest)
  | cs => some (none, cs)

/-- An exponent, if there is one. -/
def optionalExponent : Reader (Option Int)
  | 'e' :: cs | 'E' :: cs => (exponent cs).map fun r => (some r.1, r.2)
  | cs => some (none, cs)

/-- A number behind its sign. A zero in front stands alone. -/
def unsigned (negative : Bool) : Reader Json := fun cs => do
  let (whole, rest) := digits cs
  if whole.isEmpty || (whole.head? = some '0' && whole.length != 1) then none
  let (frac, rest) ← fraction rest
  let (exp, rest) ← optionalExponent rest
  some (value negative whole frac exp, rest)

def read : Reader Json
  | '-' :: cs => unsigned true cs
  | cs => unsigned false cs

end Number

/-- The code of an escape. -/
def hex4 : Reader Nat
  | a :: b :: c :: d :: rest => do
    let a ← Text.hexValue? a
    let b ← Text.hexValue? b
    let c ← Text.hexValue? c
    let d ← Text.hexValue? d
    some (((a * 16 + b) * 16 + c) * 16 + d, rest)
  | _ => none

/-- The letter that an escape of one letter stands for. -/
def simpleEscape? (c : Char) : Option Char :=
  match c with
  | '"' => some '"'
  | '\\' => some '\\'
  | '/' => some '/'
  | 'b' => some '\x08'
  | 'f' => some '\x0c'
  | 'n' => some '\n'
  | 'r' => some '\r'
  | 't' => some '\t'
  | _ => none

/-- One character of a string, escapes resolved; half a surrogate pair has no character. -/
def stringChar : Reader (Option Char)
  | [] => none
  | '\\' :: 'u' :: cs => do
    let (n, rest) ← hex4 cs
    if 0xd800 ≤ n && n < 0xdc00 then
      match rest with
      | '\\' :: 'u' :: cs' =>
        let (m, rest') ← hex4 cs'
        if 0xdc00 ≤ m && m < 0xe000 then
          some (some (Char.ofNat (0x10000 + (n - 0xd800) * 0x400 + (m - 0xdc00))), rest')
        else some (none, rest)
      | _ => some (none, rest)
    else if 0xdc00 ≤ n && n < 0xe000 then some (none, rest)
    else some (some (Char.ofNat n), rest)
  | '\\' :: c :: cs => (simpleEscape? c).map fun c => (some c, cs)
  | c :: cs => if c.toNat < 0x20 || c = '\\' then none else some (some c, cs)

/-- The rest of a string whose opening quote is gone; `fuel` bounds its length. -/
def stringRest : Nat → List Char → Bool → Reader (Option String)
  | 0, _, _, _ => none
  | fuel + 1, acc, whole, cs =>
    match cs with
    | '"' :: rest => some (if whole then some (String.ofList acc.reverse) else none, rest)
    | _ => do
      let (c, rest) ← stringChar cs
      match c with
      | some c => stringRest fuel (c :: acc) whole rest
      | none => stringRest fuel acc false rest

/-- A string whose opening quote is gone. One with an escape that stands for no character is read
over without a text. -/
def stringBody : Reader (Option String) := fun cs => stringRest (cs.length + 1) [] true cs

/-- The items after an opening bracket; `more` is set after a comma. -/
def items (value : Reader Json) : Nat → Bool → List Json → Reader (List Json)
  | 0, _, _, _ => none
  | fuel + 1, more, acc, cs =>
    match skipBlanks cs with
    | ']' :: rest => if more then none else some (acc.reverse, rest)
    | cs' => do
      let (j, rest) ← value cs'
      match skipBlanks rest with
      | ',' :: rest => items value fuel true (j :: acc) rest
      | ']' :: rest => some ((j :: acc).reverse, rest)
      | _ => none

/-- One member of an object; a name that cannot be read spoils the object. -/
def member (value : Reader Json) : Reader (Option String × Json) := fun cs =>
  match cs with
  | '"' :: rest => do
    let (k, rest) ← stringBody rest
    match skipBlanks rest with
    | ':' :: rest =>
      let (j, rest) ← value (skipBlanks rest)
      some ((k, j), rest)
    | _ => none
  | _ => none

/-- The members of an object behind its brace. -/
def members (value : Reader Json) :
    Nat → Bool → List (Option String × Json) → Reader (List (Option String × Json))
  | 0, _, _, _ => none
  | fuel + 1, more, acc, cs =>
    match skipBlanks cs with
    | '}' :: rest => if more then none else some (acc.reverse, rest)
    | cs' => do
      let (m, rest) ← member value cs'
      match skipBlanks rest with
      | ',' :: rest => members value fuel true (m :: acc) rest
      | '}' :: rest => some ((m :: acc).reverse, rest)
      | _ => none

/-- All names, if every one of them could be read. -/
def ofMembers (ms : List (Option String × Json)) : Json :=
  match ms.mapM fun m => m.1.map (·, m.2) with
  | some members => .object members
  | none => .unreadable

/-- A value nested at most `room` deep; `fits` is unset below the nesting limit. -/
def value : (room : Nat) → (limit : Nat) → Reader Json
  | 0, _, _ => none
  | room + 1, limit, cs =>
    match cs with
    | '"' :: rest => (stringBody rest).map fun r => ((r.1.map Json.string).getD .unreadable, r.2)
    | '[' :: rest => do
      let (js, rest) ← items (value room (limit - 1)) (rest.length + 1) false [] rest
      some (if limit = 0 then .unreadable else .array js, rest)
    | '{' :: rest => do
      let (ms, rest) ← members (value room (limit - 1)) (rest.length + 1) false [] rest
      some (if limit = 0 then .unreadable else ofMembers ms, rest)
    | 'n' :: 'u' :: 'l' :: 'l' :: rest => some (.null, rest)
    | 't' :: 'r' :: 'u' :: 'e' :: rest => some (.bool true, rest)
    | 'f' :: 'a' :: 'l' :: 's' :: 'e' :: rest => some (.bool false, rest)
    | _ => Number.read cs

/-- One document with nothing but blanks around it, nested at most `limit` deep. -/
def parseWithin (limit : Nat) (s : String) : Option Json :=
  let cs := s.toList
  match value (cs.length + 1) limit (skipBlanks cs) with
  | some (j, rest) => if (skipBlanks rest).isEmpty then some j else none
  | none => none

/-- Containers nest at most 127 deep. -/
def parse (s : String) : Option Json := parseWithin 127 s

end Archipelago.Json
