import Archipelago.Markup
import Archipelago.Template.Node

/-! # A template under construction -/

namespace Archipelago.Compile

/-- What one compilation goes by. -/
structure Rules where
  limits : CompilerLimits
  eval : EvalLimits
  minIntervalMs : Nat
  /-- Computed variables that depend on themselves. -/
  cyclic : List String

/-- What has been found so far. -/
structure Draft where
  declared : Dict VariableDecl := []
  errors : List CompileError := []
  warnings : List CompileWarning := []
  elements : Nat := 0
  /-- There were too many elements, and this has been reported. -/
  overflowed : Bool := false

/-- A step of a compilation, which goes on behind errors. -/
abbrev Build := ReaderT Rules (StateM Draft)

/-- A step that may come to nothing. -/
abbrev Attempt := OptionT Build

/-- An error is noted, and the work goes on. -/
def report (kind : CompileErrorKind) (span : Span) (message : String) : Build Unit :=
  modify fun d => { d with errors := d.errors ++ [⟨kind, message, span⟩] }

/-- A warning is noted. -/
def warn (span : Span) (message : String) : Build Unit :=
  modify fun d => { d with warnings := d.warnings ++ [⟨message, span⟩] }

/-- Reports an error that leaves nothing behind. -/
def reject {α : Type} (kind : CompileErrorKind) (span : Span) (message : String) : Attempt α := do
  report kind span message
  failure

/-- The value of an attribute that must be there. -/
def required (tag : Markup.OpenTag) (attr : String) : Attempt String :=
  match tag.attr? attr with
  | some value => pure value
  | none =>
    reject .missingAttribute tag.span s!"<{tag.name}> requires a '{attr}' attribute"

/-- Counts an element and tells whether it is within the limits. Only the first one above the
number of elements is reported. -/
def countElement (span : Span) (depth : Nat) : Build Bool := do
  let limits := (← read).limits
  modify fun d => { d with elements := d.elements + 1 }
  let d ← get
  if limits.maxDepth < depth then
    report .limitExceeded span s!"nesting deeper than {limits.maxDepth} levels"
    return false
  else if limits.maxNodes < d.elements then
    if !d.overflowed then
      modify fun d => { d with overflowed := true }
      report .limitExceeded span s!"template has more than {limits.maxNodes} elements"
    return false
  else return true

/-- The node of a tag, with its attributes; of a repeated attribute the last value counts. -/
def nodeOf (tag : Markup.OpenTag) (t : DslTag) : Template.Node :=
  { tag := .dsl t, attributes := Dict.ofList (tag.attrs.map fun a => (a.name, a.value))
    span := tag.span }

/-! ## Checks of names, paths and expressions -/

/-- A name that expressions can read: a letter or an underscore, and more of these or digits behind
it. -/
def isIdentifier (s : String) : Bool :=
  match s.toList with
  | [] => false
  | c :: cs =>
    (Text.isLetter c || c = '_') && cs.all fun c => Text.isLetterOrDigit c || c = '_'

/-- A cyclic variable may be read before it is declared; its declaration reports it. -/
def checkName (span : Span) (name : String) : Build Bool := do
  if Dict.contains (← get).declared name || (← read).cyclic.contains name then return true
  else
    report .undeclaredVariable span s!"variable '{name}' is used before it is declared"
    return false

/-- Is the variable declared as one that cannot be written? -/
def isReadOnly (name : String) : Build Bool := do
  return ((Dict.get? (← get).declared name).map (·.type.isReadOnly)).getD false

/-- Checks a variable that an action writes. -/
def checkTarget (span : Span) (name : String) : Build Unit := do
  if ← checkName span name then
    if ← isReadOnly name then
      warn span s!"'{name}' is read-only; writes to it will fail"

/-- Names bound around an expression, and those that only its bare names may use. -/
structure Bound where
  names : List String
  bare : List String := []

/-- Each variable that is read must be declared, unless a loop binds the name. -/
def checkVars (span : Span) (bound : Bound) : List String → Build Unit
  | [] => pure ()
  | name :: rest => do
    if !bound.names.contains name then discard <| checkName span name
    checkVars span bound rest

/-- Each bare name that is read must be one that a loop binds, or one that is free in this place. -/
def checkBindings (span : Span) (bound : Bound) : List String → Build Unit
  | [] => pure ()
  | name :: rest => do
    if !bound.names.contains name && !bound.bare.contains name then
      report .undeclaredVariable span s!"'{name}' is not bound here"
    checkBindings span bound rest

/-- All that an expression reads must be there. -/
def checkReferences (span : Span) (bound : Bound) (e : Expr) : Build Unit := do
  let refs := e.references
  checkVars span bound refs.vars
  checkBindings span bound refs.bindings

/-- An expression must be readable, and all that it reads must be there. -/
def checkExpr (span : Span) (bound : Bound) (src : String) : Build Unit := do
  match Expr.parse (← read).eval src with
  | .ok e => checkReferences span bound e
  | .error e =>
    report .invalidExpression span s!"invalid expression '{src}': {e.message}"

/-- A path must be readable, and all that it reads must be there. -/
def checkPath (span : Span) (names : List String) (path : String) : Build Unit := do
  match Expr.parsePath (← read).eval path with
  | .ok e => checkReferences span ⟨names, []⟩ e
  | .error e =>
    report .invalidExpression span s!"invalid path '{path}': {e.message}"

def checkPaths (span : Span) (names : List String) : List String → Build Unit
  | [] => pure ()
  | path :: rest => do
    checkPath span names path
    checkPaths span names rest

end Archipelago.Compile
