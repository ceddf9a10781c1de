import Archipelago.Json.Record
import Archipelago.Store

/-! # Declarations and writes as JSON -/

namespace Archipelago

namespace VarType

def ofJson? : Json → Option VarType := Json.unit? names

end VarType

namespace VariableDecl

/-- What a declaration does not have is left out. -/
def toJson (d : VariableDecl) : Json :=
  .fields [("name", some (.string d.name)), ("var_type", some (.string d.type.name)),
    ("initial", some d.initial.toJson), ("persist", some (.bool d.persist)),
    ("expression", d.expression.map .string), ("param", d.param.map .string)]

def ofJson? (j : Json) : Option VariableDecl := do
  let r ← j.record? ["name", "var_type", "initial", "persist", "expression", "param"]
  some {
    name := ← r.required "name" Json.string?
    type := ← r.required "var_type" VarType.ofJson?
    initial := ← r.required "initial" Value.ofJson?
    persist := ← r.withDefault "persist" false Json.bool?
    expression := ← r.optionalDefault "expression" Json.string?
    param := ← r.optionalDefault "param" Json.string? }

end VariableDecl

namespace Write

/-- A write is the object of its fields, under the name of its kind. -/
def toJson : Write → Json
  | set name value => .variant "Set" (.object [("name", .string name), ("value", value.toJson)])
  | reset name => .variant "Reset" (.object [("name", .string name)])

def ofJson? (j : Json) : Option Write := do
  let (variant, content) ← Json.variant? j
  match variant with
  | "Set" => do
    let r ← content.record? ["name", "value"]
    some (set (← r.required "name" Json.string?) (← r.required "value" Value.ofJson?))
  | "Reset" => do
    let r ← content.record? ["name"]
    some (reset (← r.required "name" Json.string?))
  | _ => none

/-- A batch of writes. -/
def batchToJson (ws : List Write) : Json := .object [("writes", .array (ws.map toJson))]

/-- The writes of a batch, in order. -/
def batchOfJson? (j : Json) : Option (List Write) := do
  let r ← j.record? ["writes"]
  r.required "writes" (Json.list? ofJson?)

end Write

end Archipelago
