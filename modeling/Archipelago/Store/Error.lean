import Archipelago.Expr.Error

/-! # Errors of stores and actions -/

namespace Archipelago

/-- Why a store refuses something. -/
inductive StoreError where
  | unknownVariable (name : String)
  | readOnlyVariable (name : String)
  | typeMismatch (name expected got : String)
  | duplicateVariable (name : String)
  | cyclicComputed (name : String)
  | eval (e : EvalError)
deriving DecidableEq, Repr

namespace StoreError

def kind : StoreError → ErrorKind
  | unknownVariable _ => .unknownVariable
  | readOnlyVariable _ => .readOnlyVariable
  | typeMismatch _ _ _ => .typeMismatch
  | duplicateVariable _ => .duplicateVariable
  | cyclicComputed _ => .cyclicComputed
  | eval e => e.kind

/-- What is shown of an error. -/
def message : StoreError → String
  | unknownVariable name => s!"unknown variable: {name}"
  | readOnlyVariable name => s!"variable '{name}' is read-only"
  | typeMismatch name expected got => s!"variable '{name}' expects {expected}, got {got}"
  | duplicateVariable name => s!"variable '{name}' is already declared"
  | cyclicComputed name => s!"computed variable '{name}' is part of a dependency cycle"
  | eval e => s!"evaluation failed: {e.message}"

end StoreError

/-- An error of an action ends the firing it belongs to. -/
inductive ActionError where
  | unknownVariable (name : String)
  | typeMismatch (name expected got : String)
  | readOnlyVariable (name : String)
  | invalidArgument (action message : String)
  | store (e : StoreError)
  | eval (e : EvalError)
deriving DecidableEq, Repr

namespace ActionError

def kind : ActionError → ErrorKind
  | unknownVariable _ => .unknownVariable
  | typeMismatch _ _ _ => .typeMismatch
  | readOnlyVariable _ => .readOnlyVariable
  | invalidArgument _ _ => .invalidArgument
  | store e => e.kind
  | eval e => e.kind

def message : ActionError → String
  | unknownVariable name => s!"unknown variable: {name}"
  | typeMismatch name expected got => s!"type mismatch on '{name}': expected {expected}, got {got}"
  | readOnlyVariable name => s!"variable '{name}' is read-only"
  | invalidArgument action message => s!"invalid argument for {action}: {message}"
  | store e => s!"store error: {e.message}"
  | eval e => s!"evaluation failed: {e.message}"

/-- A variable has a value that an action does not work on. -/
def mismatch (name expected : String) (got : Value) : ActionError :=
  .typeMismatch name expected got.typeName

/-- An action fails as its store does. -/
def ofStore : StoreError → ActionError
  | .unknownVariable name => .unknownVariable name
  | .readOnlyVariable name => .readOnlyVariable name
  | .typeMismatch name expected got => .typeMismatch name expected got
  | .eval e => .eval e
  | e => .store e

@[simp] theorem kind_ofStore (e : StoreError) : (ofStore e).kind = e.kind := by
  cases e <;> rfl

end ActionError

end Archipelago
