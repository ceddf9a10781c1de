import Archipelago.Config.Codec
import Archipelago.Ron.Reader

/-! # Settings as RON -/

namespace Archipelago

/-- Limits that are left out are as they are by default, here and in the other parts of a config. -/
def CompilerLimits.ofRon? (strict : Bool) (r : Ron) : Option CompilerLimits := do
  let m ← r.record? strict "CompilerLimits" fieldNames
  let d : CompilerLimits := {}
  some {
    maxDepth := ← Ron.memberOr m "max_depth" d.maxDepth Ron.nat64?
    maxNodes := ← Ron.memberOr m "max_nodes" d.maxNodes Ron.nat64?
    maxMarkupBytes := ← Ron.memberOr m "max_markup_bytes" d.maxMarkupBytes Ron.nat64? }

def EvalLimits.ofRon? (strict : Bool) (r : Ron) : Option EvalLimits := do
  let m ← r.record? strict "EvalLimits" fieldNames
  let d : EvalLimits := {}
  some {
    maxExpressionLength := ←
      Ron.memberOr m "max_expression_length" d.maxExpressionLength Ron.nat64?
    maxNesting := ← Ron.memberOr m "max_nesting" d.maxNesting Ron.nat64? }

def RenderLimits.ofRon? (strict : Bool) (r : Ron) : Option RenderLimits := do
  let m ← r.record? strict "RenderLimits" fieldNames
  let d : RenderLimits := {}
  some {
    maxLoopIterations := ← Ron.memberOr m "max_loop_iterations" d.maxLoopIterations Ron.nat64? }

def HydrationSettings.ofRon? (strict : Bool) (r : Ron) : Option HydrationSettings := do
  let m ← r.record? strict "HydrationSettings" fieldNames
  let d : HydrationSettings := {}
  some {
    devMode := ← Ron.memberOr m "dev_mode" d.devMode Ron.bool?
    minIntervalMs := ← Ron.memberOr m "min_interval_ms" d.minIntervalMs Ron.nat64?
    fallbackMessage := ← Ron.memberOr m "fallback_message" d.fallbackMessage Ron.string? }

/-- Settings from a text that names only those it changes. -/
def Config.parse? (text : String) : Option Config := do
  let doc ← Ron.parse text
  let strict := doc.extensions.namesRequired
  let m ← doc.root.record? strict "EngineConfig" fieldNames
  some {
    compiler := ← Ron.memberOr m "compiler" {} (CompilerLimits.ofRon? strict)
    eval := ← Ron.memberOr m "eval" {} (EvalLimits.ofRon? strict)
    render := ← Ron.memberOr m "render" {} (RenderLimits.ofRon? strict)
    hydration := ← Ron.memberOr m "hydration" {} (HydrationSettings.ofRon? strict) }

end Archipelago
