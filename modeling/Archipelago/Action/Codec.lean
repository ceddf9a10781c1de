import Archipelago.Action
import Archipelago.Json.Record

/-! # Actions as JSON -/

namespace Archipelago

namespace Operand

def toJson : Operand → Json
  | value v => .variant "Value" v.toJson
  | expr src => .variant "Expr" (.string src)

def ofJson? (j : Json) : Option Operand := do
  let (name, content) ← Json.variant? j
  match name with
  | "Value" => (Value.ofJson? content).map value
  | "Expr" => (Json.string? content).map expr
  | _ => none

end Operand

namespace SortOrder

def name : SortOrder → String
  | asc => "asc"
  | desc => "desc"

def ofJson? : Json → Option SortOrder := Json.unit? [("asc", asc), ("desc", desc)]

end SortOrder

namespace Json

/-- A text that may be missing, written as null. -/
def ofString? : Option String → Json
  | some s => .string s
  | none => .null

end Json

namespace Action

mutual

/-- An action is the object of its fields, under its name. -/
def toJson : Action → Json
  | sequence steps => .variant "Sequence" (.array (toJsonAll steps))
  | set var value => .variant "Set" (.object [("var", .string var), ("value", value.toJson)])
  | increment var amount =>
    .variant "Increment" (.object [("var", .string var), ("by", amount.toJson)])
  | decrement var amount =>
    .variant "Decrement" (.object [("var", .string var), ("by", amount.toJson)])
  | toggle var => .variant "Toggle" (.object [("var", .string var)])
  | reset var => .variant "Reset" (.object [("var", .string var)])
  | cycle var values =>
    .variant "Cycle" (.object [("var", .string var), ("values", .array (values.map Value.toJson))])
  | push var value => .variant "Push" (.object [("var", .string var), ("value", value.toJson)])
  | pop var => .variant "Pop" (.object [("var", .string var)])
  | removeAt var index =>
    .variant "RemoveAt" (.object [("var", .string var), ("index", index.toJson)])
  | objectSet var path value =>
    .variant "ObjectSet"
      (.object [("var", .string var), ("path", .string path), ("value", value.toJson)])
  | merge sources target =>
    .variant "Merge"
      (.object [("sources", .array (sources.map .string)), ("target", .string target)])
  | clone var target =>
    .variant "Clone" (.object [("var", .string var), ("target", .string target)])
  | filter var target condition =>
    .variant "Filter" (.object
      [("var", .string var), ("target", .string target), ("condition", .string condition)])
  | sort var target key order =>
    .variant "Sort" (.object [("var", .string var), ("target", .string target),
      ("by", .ofString? key), ("order", .string order.name)])
  | transform var target expression =>
    .variant "Transform" (.object
      [("var", .string var), ("target", .string target), ("expression", .string expression)])
  | find var target condition =>
    .variant "Find" (.object
      [("var", .string var), ("target", .string target), ("condition", .string condition)])
  | sum var target expression =>
    .variant "Sum" (.object
      [("var", .string var), ("target", .string target), ("expression", .ofString? expression)])
  | delay ms => .variant "Delay" (.object [("ms", .int ms)])

def toJsonAll : List Action → List Json
  | [] => []
  | a :: as => toJson a :: toJsonAll as

end

/-- Reads the record of a step that holds no further steps. -/
def leafOfJson? (name : String) (j : Json) : Option Action :=
  let text (r : Json.Record) (field : String) := r.required field Json.string?
  let operand (r : Json.Record) (field : String) := r.required field Operand.ofJson?
  match name with
  | "Set" => do
    let r ← j.record? ["var", "value"]
    some (set (← text r "var") (← operand r "value"))
  | "Increment" => do
    let r ← j.record? ["var", "by"]
    some (increment (← text r "var") (← operand r "by"))
  | "Decrement" => do
    let r ← j.record? ["var", "by"]
    some (decrement (← text r "var") (← operand r "by"))
  | "Toggle" => do
    let r ← j.record? ["var"]
    some (toggle (← text r "var"))
  | "Reset" => do
    let r ← j.record? ["var"]
    some (reset (← text r "var"))
  | "Cycle" => do
    let r ← j.record? ["var", "values"]
    some (cycle (← text r "var") (← r.required "values" (Json.list? Value.ofJson?)))
  | "Push" => do
    let r ← j.record? ["var", "value"]
    some (push (← text r "var") (← operand r "value"))
  | "Pop" => do
    let r ← j.record? ["var"]
    some (pop (← text r "var"))
  | "RemoveAt" => do
    let r ← j.record? ["var", "index"]
    some (removeAt (← text r "var") (← operand r "index"))
  | "ObjectSet" => do
    let r ← j.record? ["var", "path", "value"]
    some (objectSet (← text r "var") (← text r "path") (← operand r "value"))
  | "Merge" => do
    let r ← j.record? ["sources", "target"]
    some (merge (← r.required "sources" (Json.list? Json.string?)) (← text r "target"))
  | "Clone" => do
    let r ← j.record? ["var", "target"]
    some (clone (← text r "var") (← text r "target"))
  | "Filter" => do
    let r ← j.record? ["var", "target", "condition"]
    some (filter (← text r "var") (← text r "target") (← text r "condition"))
  | "Sort" => do
    let r ← j.record? ["var", "target", "by", "order"]
    some (sort (← text r "var") (← text r "target") (← r.optional "by" Json.string?)
      (← r.required "order" SortOrder.ofJson?))
  | "Transform" => do
    let r ← j.record? ["var", "target", "expression"]
    some (transform (← text r "var") (← text r "target") (← text r "expression"))
  | "Find" => do
    let r ← j.record? ["var", "target", "condition"]
    some (find (← text r "var") (← text r "target") (← text r "condition"))
  | "Sum" => do
    let r ← j.record? ["var", "target", "expression"]
    some (sum (← text r "var") (← text r "target") (← r.optional "expression" Json.string?))
  | "Delay" => do
    let r ← j.record? ["ms"]
    some (delay (← r.required "ms" Json.nat64?))
  | _ => none

/-- Reads an action that is nested at most `room` deep. -/
def ofJsonWithin : (room : Nat) → Json → Option Action
  | 0, _ => none
  | room + 1, j => do
    let (name, content) ← Json.variant? j
    if name = "Sequence" then (Json.list? (ofJsonWithin room) content).map sequence
    else leafOfJson? name content

/-- Readable documents nest at most 127 deep. -/
def ofJson? (j : Json) : Option Action := ofJsonWithin 128 j

end Action

namespace EventKind

def ofJson? : Json → Option EventKind := Json.unit? names

end EventKind

namespace EventBinding

/-- A binding without an interval has no field for it. -/
def toJson (b : EventBinding) : Json :=
  .fields [("kind", some (.string b.kind.name)), ("interval_ms", b.intervalMs.map (.int ·)),
    ("actions", some (.array (Action.toJsonAll b.actions)))]

def ofJson? (j : Json) : Option EventBinding := do
  let r ← j.record? ["kind", "interval_ms", "actions"]
  some {
    kind := ← r.required "kind" EventKind.ofJson?
    intervalMs := ← r.optionalDefault "interval_ms" Json.nat64?
    actions := ← r.required "actions" (Json.list? Action.ofJson?) }

end EventBinding

end Archipelago
