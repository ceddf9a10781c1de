import Archipelago.Config
import Archipelago.Json.Record

/-! # Settings as JSON -/

namespace Archipelago

namespace CompilerLimits

def fieldNames : List String := ["max_depth", "max_nodes", "max_markup_bytes"]

def toJson (l : CompilerLimits) : Json :=
  .object [("max_depth", .int l.maxDepth), ("max_nodes", .int l.maxNodes),
    ("max_markup_bytes", .int l.maxMarkupBytes)]

def ofJson? (j : Json) : Option CompilerLimits := do
  let r ← j.record? fieldNames
  let d : CompilerLimits := {}
  some {
    maxDepth := ← r.withDefault "max_depth" d.maxDepth Json.nat64?
    maxNodes := ← r.withDefault "max_nodes" d.maxNodes Json.nat64?
    maxMarkupBytes := ← r.withDefault "max_markup_bytes" d.maxMarkupBytes Json.nat64? }

end CompilerLimits

namespace EvalLimits

def fieldNames : List String := ["max_expression_length", "max_nesting"]

def toJson (l : EvalLimits) : Json :=
  .object [("max_expression_length", .int l.maxExpressionLength),
    ("max_nesting", .int l.maxNesting)]

def ofJson? (j : Json) : Option EvalLimits := do
  let r ← j.record? fieldNames
  let d : EvalLimits := {}
  some {
    maxExpressionLength := ← r.withDefault "max_expression_length" d.maxExpressionLength Json.nat64?
    maxNesting := ← r.withDefault "max_nesting" d.maxNesting Json.nat64? }

end EvalLimits

namespace RenderLimits

def fieldNames : List String := ["max_loop_iterations"]

def toJson (l : RenderLimits) : Json :=
  .object [("max_loop_iterations", .int l.maxLoopIterations)]

def ofJson? (j : Json) : Option RenderLimits := do
  let r ← j.record? fieldNames
  let d : RenderLimits := {}
  some {
    maxLoopIterations := ← r.withDefault "max_loop_iterations" d.maxLoopIterations Json.nat64? }

end RenderLimits

namespace HydrationSettings

def fieldNames : List String := ["dev_mode", "min_interval_ms", "fallback_message"]

def toJson (h : HydrationSettings) : Json :=
  .object [("dev_mode", .bool h.devMode), ("min_interval_ms", .int h.minIntervalMs),
    ("fallback_message", .string h.fallbackMessage)]

def ofJson? (j : Json) : Option HydrationSettings := do
  let r ← j.record? fieldNames
  let d : HydrationSettings := {}
  some {
    devMode := ← r.withDefault "dev_mode" d.devMode Json.bool?
    minIntervalMs := ← r.withDefault "min_interval_ms" d.minIntervalMs Json.nat64?
    fallbackMessage := ← r.withDefault "fallback_message" d.fallbackMessage Json.string? }

end HydrationSettings

namespace Config

def fieldNames : List String := ["compiler", "eval", "render", "hydration"]

/-- A config is an object with an object for each of its parts. -/
def toJson (c : Config) : Json :=
  .object [("compiler", c.compiler.toJson), ("eval", c.eval.toJson), ("render", c.render.toJson),
    ("hydration", c.hydration.toJson)]

/-- A part that is left out is as it is by default. -/
def ofJson? (j : Json) : Option Config := do
  let r ← j.record? fieldNames
  some {
    compiler := ← r.withDefault "compiler" {} CompilerLimits.ofJson?
    eval := ← r.withDefault "eval" {} EvalLimits.ofJson?
    render := ← r.withDefault "render" {} RenderLimits.ofJson?
    hydration := ← r.withDefault "hydration" {} HydrationSettings.ofJson? }

end Config

end Archipelago
