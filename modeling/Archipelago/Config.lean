/-! # Settings of the engine -/

namespace Archipelago

/-- How large a source may be, and how deep it may nest. -/
structure CompilerLimits where
  maxDepth : Nat := 64
  maxNodes : Nat := 10000
  maxMarkupBytes : Nat := 524288
deriving DecidableEq, Repr, Inhabited

/-- How long an expression may be, and how deep it may nest. -/
structure EvalLimits where
  maxExpressionLength : Nat := 1024
  maxNesting : Nat := 32
deriving DecidableEq, Repr, Inhabited

/-- How often a loop goes round at most. -/
structure RenderLimits where
  maxLoopIterations : Nat := 1000
deriving DecidableEq, Repr, Inhabited

structure HydrationSettings where
  /-- A fallback shows why its island failed. -/
  devMode : Bool := false
  minIntervalMs : Nat := 100
  fallbackMessage : String := "This section could not be loaded."
deriving DecidableEq, Repr, Inhabited

/-- Everything about the program that can be set. -/
structure Config where
  compiler : CompilerLimits := {}
  eval : EvalLimits := {}
  render : RenderLimits := {}
  hydration : HydrationSettings := {}
deriving DecidableEq, Repr, Inhabited

end Archipelago
