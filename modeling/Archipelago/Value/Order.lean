import Archipelago.Expr.Error

/-! # Loose equality and order of values -/

namespace Archipelago.Value

/-- Missing data equals null, and a number equals the text of it. -/
def looseEq : Value → Value → Bool
  | undefined, undefined | undefined, null | null, undefined | null, null => true
  | number x, string s | string s, number x =>
    match parseNumber s with
    | some y => y == x
    | none => false
  | a, b => a.same b

/-- A number, or a string that holds one. -/
def asOperand (v : Value) : Except EvalError Float :=
  match v.toNumber? with
  | some x => .ok x
  | none => .error (.mismatch "number" v)

/-- No number counts as equal to every number. -/
def orderNumbers (x y : Float) : Ordering := if x < y then .lt else if y < x then .gt else .eq

/-- Texts in the order of their code points. -/
def orderText (s t : String) : Ordering := if s < t then .lt else if t < s then .gt else .eq

/-- Two strings compare as numbers if both hold one, else by code points; all else must be
numbers. -/
def order : Value → Value → Except EvalError Ordering
  | string s, string t =>
    match parseNumber s, parseNumber t with
    | some x, some y => .ok (orderNumbers x y)
    | _, _ => .ok (orderText s t)
  | a, b => do
    let x ← a.asOperand
    let y ← b.asOperand
    .ok (orderNumbers x y)

end Archipelago.Value
