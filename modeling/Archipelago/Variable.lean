import Archipelago.Expr
import Archipelago.Json.Reader
import Archipelago.Store.Error

/-! # Declared variables -/

namespace Archipelago

/-- The types that a variable can be declared with. -/
inductive VarType where
  | number
  | string
  | boolean
  | array
  | object
  /-- Derived from an expression over other variables. -/
  | computed
  /-- Read from the address of the page. -/
  | urlParam
deriving DecidableEq, Repr

/-- The value of a JSON text. -/
def Value.parse? (text : String) : Option Value := (Json.parse text).bind Value.ofJson?

namespace VarType

def names : List (String × VarType) :=
  [("number", number), ("string", string), ("boolean", boolean), ("array", array),
    ("object", object), ("computed", computed), ("urlParam", urlParam)]

/-- A type by its name. -/
def ofName? (s : String) : Option VarType := Dict.get? names s

def name : VarType → String
  | number => "number"
  | string => "string"
  | boolean => "boolean"
  | array => "array"
  | object => "object"
  | computed => "computed"
  | urlParam => "urlParam"

@[simp] theorem ofName?_name (t : VarType) : ofName? t.name = some t := by cases t <;> decide

/-- The types whose variables are not written. -/
def isReadOnly : VarType → Bool
  | computed | urlParam => true
  | _ => false

/-- The initial value of a declaration that names none. -/
def zero : VarType → Value
  | number => .number 0.0
  | string | urlParam => .string ""
  | boolean => .bool false
  | array => .array []
  | object => .object []
  | computed => .undefined

/-- An attribute as an initial value; lists and objects are written as JSON. -/
def parseInitial (t : VarType) (text : String) : Option Value :=
  match t with
  | number => (parseNumber text).map .number
  | string | urlParam => some (.string text)
  | boolean =>
    let word := Text.trim text
    if word = "true" then some (.bool true)
    else if word = "false" then some (.bool false)
    else none
  | array =>
    match Value.parse? text with
    | some (.array items) => some (.array items)
    | _ => none
  | object =>
    match Value.parse? text with
    | some (.object fields) => some (.object fields)
    | some .null => some .null
    | _ => none
  | computed => none

/-- A written value as one of this type, for the variable `name`. -/
def coerce (t : VarType) (name : String) (v : Value) : Except StoreError Value :=
  let mismatch := .error (.typeMismatch name t.name v.typeName)
  match t, v with
  | number, .number x => .ok (.number x)
  | number, .string s =>
    match parseNumber s with
    | some x => .ok (.number x)
    | none => mismatch
  | number, _ => mismatch
  | string, .array _ | string, .object _ => mismatch
  | string, v => .ok (.string v.display)
  | boolean, .bool b => .ok (.bool b)
  | boolean, .string s =>
    if s = "true" then .ok (.bool true) else if s = "false" then .ok (.bool false) else mismatch
  | boolean, _ => mismatch
  | array, .array items => .ok (.array items)
  | array, _ => mismatch
  | object, .object fields => .ok (.object fields)
  | object, .null => .ok .null
  | object, .undefined => .ok .undefined
  | object, _ => mismatch
  | computed, _ | urlParam, _ => .error (.readOnlyVariable name)

end VarType

/-- A declaration as it stands in markup. -/
structure VariableDecl where
  name : String
  type : VarType
  /-- The default, for a parameter of the address. -/
  initial : Value
  persist : Bool := false
  expression : Option String := none
  param : Option String := none

namespace VariableDecl

/-- The parameter of the address that the variable reads. -/
def paramName (d : VariableDecl) : String := d.param.getD d.name

end VariableDecl

/-- A declared variable with its current value and the parsed expression of a computed one. -/
structure Variable where
  decl : VariableDecl
  value : Value
  expr : Option Expr

namespace Variable

/-- The variables that a computed one reads. -/
def dependencies (v : Variable) : List String :=
  match v.expr with
  | some e => e.dependencies
  | none => []

end Variable

end Archipelago
