import Archipelago.Expr
import Archipelago.Text.Casing
import Archipelago.Text.Search
import Archipelago.Value.Order

/-! # Evaluation of expressions -/

namespace Archipelago

/-- What an expression can read besides its bindings. -/
structure Scope where
  lookup : String → Option Value
  resident : Value

/-- Frames of bindings, the innermost first. -/
abbrev Locals := List (Dict Value)

namespace Locals

/-- A name is looked for from the innermost frame outwards. -/
def get? : Locals → String → Option Value
  | [], _ => none
  | frame :: outer, name => (Dict.get? frame name).or (get? outer name)

/-- All visible bindings in one frame; a name stands where the outermost frame binds it. -/
def flatten : Locals → Dict Value
  | [] => []
  | frame :: outer => Dict.merge (flatten outer) frame

end Locals

namespace Value

/-- A list includes what equals one of its items, and a text what occurs in it. What is undefined or
null includes nothing. -/
def includes (target needle : Value) : Except EvalError Value :=
  match target with
  | array items => .ok (bool (items.any fun item => item.looseEq needle))
  | string s => .ok (bool (Text.occursIn needle.display.toList s.toList))
  | undefined | null => .ok (bool false)
  | other => .error (.mismatch "array or string" other)

/-- How many items a list has, and how many letters a text. An object may have a field of that name,
and anything else is of no length. -/
def length (v : Value) : Value :=
  match v with
  | array items => number (Float.ofNat items.length)
  | string s => number (Float.ofNat s.length)
  | object _ => v.segment (string "length")
  | _ => undefined

/-- A method of a text. Of what is undefined or null it is undefined. -/
def applyText (op : TextOp) (v : Value) : Except EvalError Value :=
  match v with
  | string s =>
    .ok <| string <| match op with
      | .lower => Text.lower s
      | .upper => Text.upper s
      | .trim => Text.trim s
  | undefined | null => .ok undefined
  | other => .error (.mismatch "string" other)

/-- Strings join with anything; else both sides must be numbers, not texts of them. -/
def plus : Value → Value → Except EvalError Value
  | string s, b => .ok (string (s ++ b.display))
  | a, string t => .ok (string (a.display ++ t))
  | number x, number y => .ok (number (x + y))
  | number _, other => .error (.mismatch "number" other)
  | other, _ => .error (.mismatch "number" other)

/-- An operation on two values that count as numbers. -/
def numeric (f : Float → Float → Float) (a b : Value) : Except EvalError Value := do
  let x ← a.asOperand
  let y ← b.asOperand
  .ok (number (f x y))

/-- The divisor is looked at first. -/
def divided (f : Float → Float → Float) (a b : Value) : Except EvalError Value := do
  let y ← b.asOperand
  if y == 0.0 then .error .divisionByZero else numeric f a b

/-- An operator between two values. A sum may be one of texts. -/
def applyArith : ArithOp → Value → Value → Except EvalError Value
  | .add => plus
  | .sub => numeric (· - ·)
  | .mul => numeric (· * ·)
  | .div => divided (· / ·)
  | .mod => divided Decimal.remainder

/-- A comparison of two values. -/
def applyRelation (op : Relation) (a b : Value) : Except EvalError Value :=
  match op with
  | .eq => .ok (bool (a.looseEq b))
  | .ne => .ok (bool (!a.looseEq b))
  | .lt => (order a b).map fun o => bool (o == .lt)
  | .le => (order a b).map fun o => bool (o != .gt)
  | .gt => (order a b).map fun o => bool (o == .gt)
  | .ge => (order a b).map fun o => bool (o != .lt)

end Value

namespace Expr

mutual

/-- The value of an expression. A name of the loops around it hides a variable. -/
def eval (scope : Scope) (locals : Locals) : Expr → Except EvalError Value
  | literal v => .ok v
  | var name =>
    match (locals.get? name).or (scope.lookup name) with
    | some v => .ok v
    | none => .error (.unknownVariable name)
  | resident => .ok scope.resident
  | binding name =>
    match locals.get? name with
    | some v => .ok v
    | none => .error (.unknownIdentifier name)
  | member target name => do
    let v ← eval scope locals target
    .ok (v.segment (.string name))
  | index target position => do
    let v ← eval scope locals target
    let i ← eval scope locals position
    .ok (v.segment i)
  | length target => do
    let v ← eval scope locals target
    .ok v.length
  | includes target needle => do
    let v ← eval scope locals target
    let n ← eval scope locals needle
    v.includes n
  | text op target => do
    let v ← eval scope locals target
    v.applyText op
  | arith op left right => do
    let a ← eval scope locals left
    let b ← eval scope locals right
    Value.applyArith op a b
  | neg operand => do
    let v ← eval scope locals operand
    let x ← v.asOperand
    .ok (.number (-x))
  | relation op left right => do
    let a ← eval scope locals left
    let b ← eval scope locals right
    Value.applyRelation op a b
  | all terms => evalAll scope locals terms
  | any terms => evalAny scope locals terms
  | not operand => do
    let v ← eval scope locals operand
    .ok (.bool (!v.isTruthy))

/-- Stops at the first term that is not truthy. -/
def evalAll (scope : Scope) (locals : Locals) : List Expr → Except EvalError Value
  | [] => .ok (.bool true)
  | e :: es => do
    let v ← eval scope locals e
    if v.isTruthy then evalAll scope locals es else .ok (.bool false)

/-- Stops at the first term that is truthy. -/
def evalAny (scope : Scope) (locals : Locals) : List Expr → Except EvalError Value
  | [] => .ok (.bool false)
  | e :: es => do
    let v ← eval scope locals e
    if v.isTruthy then .ok (.bool true) else evalAny scope locals es

end

end Expr

end Archipelago
