import Archipelago.Text.Search
import Archipelago.Value.Order

/-! # Comparisons of conditions -/

namespace Archipelago.Template

/-- A comparison of a value with an operand, made by the attribute of its name. -/
inductive Comparison where
  | equals
  | notEquals
  | greaterThan
  | lessThan
  | greaterThanOrEqual
  | lessThanOrEqual
  | contains
deriving DecidableEq, Repr

namespace Comparison

/-- All comparisons, in the order in which they are looked for. -/
def all : List Comparison :=
  [equals, notEquals, greaterThan, lessThan, greaterThanOrEqual, lessThanOrEqual, contains]

def name : Comparison → String
  | equals => "equals"
  | notEquals => "notEquals"
  | greaterThan => "greaterThan"
  | lessThan => "lessThan"
  | greaterThanOrEqual => "greaterThanOrEqual"
  | lessThanOrEqual => "lessThanOrEqual"
  | contains => "contains"

/-- Does a comparison hold? What cannot be ordered is an error. -/
def holds (c : Comparison) (v operand : Value) : Except EvalError Bool :=
  match c with
  | equals => .ok (v.looseEq operand)
  | notEquals => .ok (!v.looseEq operand)
  | greaterThan => (v.order operand).map (· == .gt)
  | lessThan => (v.order operand).map (· == .lt)
  | greaterThanOrEqual => (v.order operand).map (· != .lt)
  | lessThanOrEqual => (v.order operand).map (· != .gt)
  | contains =>
    match v with
    | .string s => .ok (Text.occursIn operand.display.toList s.toList)
    | .array items => .ok (items.any fun item => item.looseEq operand)
    | _ => .ok false

end Comparison

end Archipelago.Template
