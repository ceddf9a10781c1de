import Archipelago.Value

/-! # Expressions of attribute text -/

namespace Archipelago

/-- The methods of texts that take no arguments. -/
inductive TextOp where
  | lower
  | upper
  | trim
deriving DecidableEq, Repr

/-- The operators between numbers. -/
inductive ArithOp where
  | add
  | sub
  | mul
  | div
  | mod
deriving DecidableEq, Repr

/-- The operators that compare. -/
inductive Relation where
  | eq
  | ne
  | lt
  | le
  | gt
  | ge
deriving DecidableEq, Repr

/-- The grammar is closed: no call but the text operations and `includes`. -/
inductive Expr where
  | literal (v : Value)
  /-- A variable of the store, unless a binding of that name shadows it. -/
  | var (name : String)
  | resident
  /-- A bare name that only a loop or an array action can bind. -/
  | binding (name : String)
  | member (target : Expr) (name : String)
  | index (target position : Expr)
  | length (target : Expr)
  | includes (target needle : Expr)
  | text (op : TextOp) (target : Expr)
  | arith (op : ArithOp) (left right : Expr)
  | neg (operand : Expr)
  | relation (op : Relation) (left right : Expr)
  | all (terms : List Expr)
  | any (terms : List Expr)
  | not (operand : Expr)

/-- Names read by an expression, each once and in order of first appearance. -/
structure References where
  vars : List String
  bindings : List String
  resident : Bool
deriving DecidableEq, Repr

namespace References

/-- Nothing is read. -/
def none : References := ⟨[], [], false⟩

def addVar (r : References) (name : String) : References := { r with vars := addNew r.vars name }

def addBinding (r : References) (name : String) : References :=
  { r with bindings := addNew r.bindings name }

end References

namespace Expr

mutual

/-- All that an expression reads, behind what has been found before. -/
def collect (r : References) : Expr → References
  | literal _ => r
  | var name => r.addVar name
  | resident => { r with resident := true }
  | binding name => r.addBinding name
  | member a _ | length a | text _ a | neg a | not a => collect r a
  | index a b | includes a b | arith _ a b | relation _ a b => collect (collect r a) b
  | all es | any es => collectAll r es

def collectAll (r : References) : List Expr → References
  | [] => r
  | e :: es => collectAll (collect r e) es

end

/-- All that an expression reads, each name once. -/
def references (e : Expr) : References := collect .none e

/-- The variables that an expression reads. -/
def dependencies (e : Expr) : List String := e.references.vars

end Expr

end Archipelago
