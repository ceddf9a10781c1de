import Archipelago.Action.Codec

/-! # Handlers of rendered islands -/

namespace Archipelago.Page

/-- A field that shows a variable and writes it. -/
structure InputBinding where
  var : String
  checkbox : Bool
deriving DecidableEq, Repr

/-- What an event on a rendered node does. -/
structure Handler where
  kind : EventKind
  intervalMs : Option Nat := none
  actions : List Action
  input : Option InputBinding := none
  /-- The bindings around the place where it was rendered. -/
  locals : Dict Value

namespace InputBinding

def toJson (b : InputBinding) : Json :=
  .object [("var", .string b.var), ("checkbox", .bool b.checkbox)]

def ofJson? (j : Json) : Option InputBinding := do
  let r ← j.record? ["var", "checkbox"]
  some {
    var := ← r.required "var" Json.string?
    checkbox := ← r.required "checkbox" Json.bool? }

end InputBinding

namespace Handler

/-- What a handler does not have is left out. -/
def toJson (h : Handler) : Json :=
  .fields [("kind", some (.string h.kind.name)), ("interval_ms", h.intervalMs.map (.int ·)),
    ("actions", some (.array (Action.toJsonAll h.actions))),
    ("input", h.input.map InputBinding.toJson), ("locals", some (Value.object h.locals).toJson)]

def ofJson? (j : Json) : Option Handler := do
  let r ← j.record? ["kind", "interval_ms", "actions", "input", "locals"]
  some {
    kind := ← r.required "kind" EventKind.ofJson?
    intervalMs := ← r.optionalDefault "interval_ms" Json.nat64?
    actions := ← r.required "actions" (Json.list? Action.ofJson?)
    input := ← r.optionalDefault "input" InputBinding.ofJson?
    locals := ← r.withDefault "locals" [] (Json.dict? Value.ofJson?) }

end Handler

end Archipelago.Page
