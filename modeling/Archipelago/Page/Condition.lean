import Archipelago.Template.Comparison
import Archipelago.Template.Reads

/-! # Conditions and paths of a page -/

namespace Archipelago.Page

open Template (Comparison splitPaths)

/-- What a page is rendered from, at one place in it. -/
structure View where
  limits : EvalLimits
  scope : Scope
  locals : Locals := []

namespace View

/-- The name that a path starts with. -/
def pathRoot (path : String) : String :=
  String.ofList (path.toList.takeWhile fun c => c ≠ '.' && c ≠ '[')

/-- A path from a loop binding reads the binding, any other a variable. -/
def pathExpr (v : View) (path : String) : Except EvalError Expr :=
  let path := Text.trim path
  if (v.locals.get? (pathRoot path)).isSome then Expr.parse v.limits path
  else Expr.parsePath v.limits path

/-- The value that a path leads to. -/
def evalPath (v : View) (path : String) : Except EvalError Value := do
  (← v.pathExpr path).eval v.scope v.locals

/-- The value of an expression. -/
def evalExpr (v : View) (src : String) : Except EvalError Value := do
  (← Expr.parse v.limits src).eval v.scope v.locals

/-- Does an expression hold? -/
def exprHolds (v : View) (src : String) : Except EvalError Bool := do
  return (← v.evalExpr src).isTruthy

/-- Does what a path leads to count as true? -/
def pathHolds (v : View) (path : String) : Except EvalError Bool := do
  return (← v.evalPath path).isTruthy

/-- The first of the comparisons that a condition makes, with its operand. -/
def comparison? (n : Template.Node) : Option (Comparison × Value) :=
  Comparison.all.findSome? fun c => (n.attr? c.name).map fun text => (c, .ofLiteral text)

/-- A path compared as the attributes of the node say, or else taken for itself. -/
def pathCompares (v : View) (n : Template.Node) (path : String) : Except EvalError Bool := do
  let value ← v.evalPath path
  match comparison? n with
  | some (c, operand) => c.holds value operand
  | none => return value.isTruthy

/-- Stops at the first path that does not hold. -/
def allHold (v : View) : List String → Except EvalError Bool
  | [] => .ok true
  | path :: rest => do if ← v.pathHolds path then v.allHold rest else .ok false

/-- Stops at the first path that holds. -/
def anyHolds (v : View) : List String → Except EvalError Bool
  | [] => .ok false
  | path :: rest => do if ← v.pathHolds path then .ok true else v.anyHolds rest

/-- A part of a condition; one without its attribute holds. -/
def part (n : Template.Node) (attr : String) (holds : String → Except EvalError Bool) :
    Except EvalError Bool :=
  match n.attr? attr with
  | some text => holds text
  | none => .ok true

/-- Does the condition of a branch hold? The first part that fails or does not hold decides. -/
def holds (v : View) (n : Template.Node) : Except EvalError Bool := do
  if !(← part n "condition" v.exprHolds) then return false
  if !(← part n "var" (v.pathCompares n)) then return false
  if !(← part n "and" fun paths => v.allHold (splitPaths paths)) then return false
  if !(← part n "or" fun paths => v.anyHolds (splitPaths paths)) then return false
  part n "not" fun path => do return !(← v.pathHolds path)

end View

end Archipelago.Page
