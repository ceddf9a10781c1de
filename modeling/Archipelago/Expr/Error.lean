import Archipelago.Value

/-! # Errors of expressions, stores and actions -/

namespace Archipelago

/-- The classes that all errors of the engine share. -/
inductive ErrorKind where
  | unknownVariable
  | unknownIdentifier
  | typeMismatch
  | readOnlyVariable
  | cyclicComputed
  | duplicateVariable
  | divisionByZero
  | invalidArgument
  | malformed
  | limitExceeded
deriving DecidableEq, Repr

namespace ErrorKind

def name : ErrorKind → String
  | unknownVariable => "UnknownVariable"
  | unknownIdentifier => "UnknownIdentifier"
  | typeMismatch => "TypeMismatch"
  | readOnlyVariable => "ReadOnlyVariable"
  | cyclicComputed => "CyclicComputed"
  | duplicateVariable => "DuplicateVariable"
  | divisionByZero => "DivisionByZero"
  | invalidArgument => "InvalidArgument"
  | malformed => "Syntax"
  | limitExceeded => "LimitExceeded"

end ErrorKind

/-- Why an expression has no value. -/
inductive EvalError where
  | unknownVariable (name : String)
  | unknownIdentifier (name : String)
  | unsupportedMethod (name : String)
  | typeMismatch (expected got : String)
  | divisionByZero
  | malformed (offset : Nat) (message : String)
  | limitExceeded (limit : String)
deriving DecidableEq, Repr

namespace EvalError

/-- Each error is of a kind that does not say what it is about. -/
def kind : EvalError → ErrorKind
  | unknownVariable _ => .unknownVariable
  | unknownIdentifier _ | unsupportedMethod _ => .unknownIdentifier
  | typeMismatch _ _ => .typeMismatch
  | divisionByZero => .divisionByZero
  | malformed _ _ => .malformed
  | limitExceeded _ => .limitExceeded

/-- What is shown of an error. -/
def message : EvalError → String
  | unknownVariable name => s!"unknown variable: {name}"
  | unknownIdentifier name => s!"identifier '{name}' is not allowed here"
  | unsupportedMethod name => s!"method '{name}' is not allowed"
  | typeMismatch expected got => s!"type error: expected {expected}, got {got}"
  | divisionByZero => "division by zero"
  | malformed offset message => s!"syntax error at {offset}: {message}"
  | limitExceeded limit => s!"expression exceeds {limit}"

/-- A value of another type than the operation needs. -/
def mismatch (expected : String) (got : Value) : EvalError := .typeMismatch expected got.typeName

end EvalError

end Archipelago
