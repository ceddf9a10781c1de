import Archipelago.Template.Node

/-! # Variables that a node reads and variables that can change -/

namespace Archipelago.Template

/-- The variables in a path, under the default limits. -/
def pathReads (path : String) : List String :=
  match Expr.parsePath {} path with
  | .ok e => e.dependencies
  | .error _ => []

/-- The variables in an expression, under the default limits. -/
def exprReads (src : String) : List String :=
  match Expr.parse {} src with
  | .ok e => e.dependencies
  | .error _ => []

/-- The paths of a list between commas. -/
def splitPaths (paths : String) : List String :=
  ((Text.split ',' paths).map Text.trim).filter (· ≠ "")

namespace Node

/-- The reads of a branch of an `If` chain. -/
def conditionReads (n : Node) : List String :=
  let of (attr : String) (reads : String → List String) : List String :=
    ((n.attr? attr).map reads).getD []
  of "condition" exprReads ++ of "var" pathReads ++ of "not" pathReads
    ++ of "and" (fun ps => (splitPaths ps).flatMap pathReads)
    ++ of "or" (fun ps => (splitPaths ps).flatMap pathReads)

/-- The variables that the attributes of the node itself read; a chain reads for its branches. -/
def reads (n : Node) : List String :=
  match n.dsl? with
  | some .showVar | some .forEach | some .textInput | some .checkbox =>
    ((n.attr? "var").map pathReads).getD []
  | some .switch =>
    match n.attr? "var", n.attr? "value" with
    | some path, _ => pathReads path
    | none, some src => exprReads src
    | none, none => []
  | some .ifChain => n.children.flatMap conditionReads
  | _ => []

end Node

/-- The variables that the tree itself can write. -/
def writtenVars (root : Node) : List String :=
  root.walk.flatMap fun n => n.bindings.flatMap EventBinding.targets ++ n.inputVar?.toList

/-- Does a computed variable read one of the names? -/
def computedReads (names : List String) (d : VariableDecl) : Bool :=
  d.type = .computed && ((d.expression.map exprReads).getD []).any (· ∈ names)

/-- Variables whose value can change once the page has been rendered. A computed variable is
declared behind those it reads, so one pass finds them all. -/
def reactive (root : Node) (decls : List VariableDecl) : List String :=
  let written := addAllNew [] (writtenVars root)
  let stored := decls.filter fun d => d.persist || d.type = .urlParam
  let start := addAllNew written (stored.map (·.name))
  decls.foldl (fun names d => if computedReads names d then addNew names d.name else names) start

end Archipelago.Template
