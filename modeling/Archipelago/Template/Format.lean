import Archipelago.Decimal.Binary
import Archipelago.Text.Casing
import Archipelago.Value

/-! # Formats of shown values -/

namespace Archipelago.Template

/-- The ways to show a value. -/
inductive ShowFormat where
  | number
  | currency
  | percent
  | uppercase
  | lowercase
deriving DecidableEq, Repr

namespace ShowFormat

def names : List (String × ShowFormat) :=
  [("number", number), ("currency", currency), ("percent", percent), ("uppercase", uppercase),
    ("lowercase", lowercase)]

def ofName? (s : String) : Option ShowFormat := Dict.get? names s

end ShowFormat

/-- Commas between groups of three digits, counted from the end. -/
def groupDigits : List Char → List Char
  | [] => []
  | c :: cs =>
    if cs.length % 3 = 0 && !cs.isEmpty then c :: ',' :: groupDigits cs else c :: groupDigits cs

/-- Groups the digits between the sign and the point; text with other characters there stays. -/
def groupThousands (s : String) : String :=
  let (sign, rest) := match s.toList with
    | '-' :: cs => (['-'], cs)
    | cs => ([], cs)
  let whole := rest.takeWhile (· ≠ '.')
  if whole.all Char.isDigit then
    String.ofList (sign ++ groupDigits whole ++ rest.dropWhile (· ≠ '.'))
  else s

namespace ShowFormat

/-- The text of a number in a format of numbers. -/
def ofNumber? : ShowFormat → Option (Float → String)
  | number => some fun x => groupThousands (formatNumber x)
  | currency =>
    some fun x => (if x < 0.0 then "-" else "") ++ "$" ++ groupThousands (Decimal.fixed 2 x)
  | percent => some fun x => formatNumber x ++ "%"
  | uppercase | lowercase => none

/-- The text of a value; what is no number shows as it is in a format of numbers. -/
def apply (f : ShowFormat) (v : Value) : String :=
  match f.ofNumber?, v.toNumber? with
  | some write, some x => write x
  | some _, none => v.display
  | none, _ => if f = uppercase then Text.upper v.display else Text.lower v.display

end ShowFormat

/-- A value as it is shown, in a format if there is one. -/
def formatValue (v : Value) : Option ShowFormat → String
  | some f => f.apply v
  | none => v.display

end Archipelago.Template
