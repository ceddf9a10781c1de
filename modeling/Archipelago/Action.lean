import Archipelago.Config
import Archipelago.Expr.Eval
import Archipelago.Expr.Parser

/-! # Actions -/

namespace Archipelago

/-- An argument of an action: a value, or the text of an expression. -/
inductive Operand where
  | value (v : Value)
  | expr (src : String)

namespace Operand

/-- What an operand stands for: the value that is written, or what the expression comes to in the
scope. -/
def resolve (limits : EvalLimits) (scope : Scope) (locals : Locals) :
    Operand → Except EvalError Value
  | value v => .ok v
  | expr src => do
    let e ← Expr.parse limits src
    e.eval scope locals

/-- Variables that the expression reads, under the default limits. -/
def dependencies : Operand → List String
  | value _ => []
  | expr src =>
    match Expr.parse {} src with
    | .ok e => e.dependencies
    | .error _ => []

end Operand

/-- Which end of a sorted list the least keys are at. -/
inductive SortOrder where
  | asc
  | desc
deriving DecidableEq, Repr

/-- What an event does, one step of it. -/
inductive Action where
  | set (var : String) (value : Operand)
  | increment (var : String) (amount : Operand)
  | decrement (var : String) (amount : Operand)
  | toggle (var : String)
  | reset (var : String)
  /-- The next one of the values, the first one after the last. -/
  | cycle (var : String) (values : List Value)
  | push (var : String) (value : Operand)
  | pop (var : String)
  | removeAt (var : String) (index : Operand)
  | objectSet (var path : String) (value : Operand)
  /-- Later sources win. -/
  | merge (sources : List String) (target : String)
  | clone (var target : String)
  | filter (var target condition : String)
  | sort (var target : String) (key : Option String) (order : SortOrder)
  | transform (var target expression : String)
  | find (var target condition : String)
  | sum (var target : String) (expression : Option String)
  /-- A delay suspends the steps behind it. -/
  | sequence (steps : List Action)
  | delay (ms : Nat)

namespace Action

/-- The name of an action, as its tag has it. -/
def kind : Action → String
  | set .. => "Set"
  | increment .. => "Increment"
  | decrement .. => "Decrement"
  | toggle .. => "Toggle"
  | reset .. => "Reset"
  | cycle .. => "Cycle"
  | push .. => "Push"
  | pop .. => "Pop"
  | removeAt .. => "RemoveAt"
  | objectSet .. => "ObjectSet"
  | merge .. => "Merge"
  | clone .. => "Clone"
  | filter .. => "Filter"
  | sort .. => "Sort"
  | transform .. => "Transform"
  | find .. => "Find"
  | sum .. => "Sum"
  | sequence .. => "Sequence"
  | delay .. => "Delay"

/-- The variable that a step writes itself. -/
def target? : Action → Option String
  | set var _ | increment var _ | decrement var _ | toggle var | reset var | cycle var _
  | push var _ | pop var | removeAt var _ | objectSet var _ _ => some var
  | merge _ target | clone _ target | filter _ target _ | sort _ target _ _
  | transform _ target _ | find _ target _ | sum _ target _ => some target
  | sequence _ | delay _ => none

mutual

/-- Every variable that is written, nested steps included. -/
def targets : Action → List String
  | sequence steps => targetsAll steps
  | set var _ | increment var _ | decrement var _ | toggle var | reset var | cycle var _
  | push var _ | pop var | removeAt var _ | objectSet var _ _ => [var]
  | merge _ target | clone _ target | filter _ target _ | sort _ target _ _
  | transform _ target _ | find _ target _ | sum _ target _ => [target]
  | delay _ => []

def targetsAll : List Action → List String
  | [] => []
  | a :: as => targets a ++ targetsAll as

end

/-- Neither a sequence nor a delay. -/
def isLeaf : Action → Bool
  | sequence _ | delay _ => false
  | _ => true

/-- The argument whose reads count for the step. -/
def operand? : Action → Option Operand
  | set _ v | push _ v | objectSet _ _ v | increment _ v | decrement _ v | removeAt _ v => some v
  | _ => none

mutual

/-- How many steps there are, nested ones included. -/
def size : Action → Nat
  | sequence steps => sizeAll steps + 1
  | _ => 1

def sizeAll : List Action → Nat
  | [] => 0
  | a :: as => size a + sizeAll as

end

end Action

/-- What sets off the actions of a binding. -/
inductive EventKind where
  | click
  | change
  | mount
  | interval
  /-- A suspended sequence going on. -/
  | sequenceStep
deriving DecidableEq, Repr

namespace EventKind

/-- All kinds of events by name. -/
def names : List (String × EventKind) :=
  [("click", click), ("change", change), ("mount", mount), ("interval", interval),
    ("sequenceStep", sequenceStep)]

def name : EventKind → String
  | click => "click"
  | change => "change"
  | mount => "mount"
  | interval => "interval"
  | sequenceStep => "sequenceStep"

def ofName? (s : String) : Option EventKind := Dict.get? names s

@[simp] theorem ofName?_name (k : EventKind) : ofName? k.name = some k := by cases k <;> decide

end EventKind

/-- An event of a node and what it does. -/
structure EventBinding where
  kind : EventKind
  intervalMs : Option Nat := none
  actions : List Action

namespace EventBinding

/-- The variables that the actions of a binding write. -/
def targets (b : EventBinding) : List String := Action.targetsAll b.actions

end EventBinding

end Archipelago
