import Archipelago.Expr
import Archipelago.Json.Record

/-! # Expressions as JSON -/

namespace Archipelago

namespace ArithOp

def names : List (String × ArithOp) :=
  [("Add", add), ("Sub", sub), ("Mul", mul), ("Div", div), ("Mod", mod)]

def name : ArithOp → String
  | add => "Add"
  | sub => "Sub"
  | mul => "Mul"
  | div => "Div"
  | mod => "Mod"

end ArithOp

namespace Relation

def names : List (String × Relation) :=
  [("Eq", eq), ("Ne", ne), ("Lt", lt), ("Le", le), ("Gt", gt), ("Ge", ge)]

def name : Relation → String
  | eq => "Eq"
  | ne => "Ne"
  | lt => "Lt"
  | le => "Le"
  | gt => "Gt"
  | ge => "Ge"

end Relation

namespace TextOp

def names : List (String × TextOp) :=
  [("ToLowerCase", lower), ("ToUpperCase", upper), ("Trim", trim)]

def name : TextOp → String
  | lower => "ToLowerCase"
  | upper => "ToUpperCase"
  | trim => "Trim"

end TextOp

namespace Expr

mutual

/-- An expression is its parts under the name of its kind. -/
def toJson : Expr → Json
  | literal v => .variant "Literal" v.toJson
  | var name => .variant "Var" (.string name)
  | resident => .string "Resident"
  | binding name => .variant "Local" (.string name)
  | member a name => .variant "Member" (.array [toJson a, .string name])
  | index a b => .variant "Index" (.array [toJson a, toJson b])
  | length a => .variant "Length" (toJson a)
  | includes a b => .variant "Includes" (.array [toJson a, toJson b])
  | text op a => .variant op.name (toJson a)
  | arith op a b => .variant op.name (.array [toJson a, toJson b])
  | neg a => .variant "Neg" (toJson a)
  | relation op a b => .variant op.name (.array [toJson a, toJson b])
  | all es => .variant "And" (.array (toJsonAll es))
  | any es => .variant "Or" (.array (toJsonAll es))
  | not a => .variant "Not" (toJson a)

def toJsonAll : List Expr → List Json
  | [] => []
  | e :: es => toJson e :: toJsonAll es

end

/-- Reads an expression that is nested at most `room` deep. -/
def ofJsonWithin : (room : Nat) → Json → Option Expr
  | 0, _ => none
  | room + 1, j => (Json.unit? [("Resident", resident)] j).or do
    let (name, content) ← Json.variant? j
    let one (f : Expr → Expr) : Option Expr := (ofJsonWithin room content).map f
    let two (f : Expr → Expr → Expr) : Option Expr :=
      match content with
      | .array [a, b] => do
        let a ← ofJsonWithin room a
        let b ← ofJsonWithin room b
        some (f a b)
      | _ => none
    match Dict.get? ArithOp.names name, Dict.get? Relation.names name,
      Dict.get? TextOp.names name with
    | some op, _, _ => two (arith op)
    | _, some op, _ => two (relation op)
    | _, _, some op => one (text op)
    | _, _, _ =>
      match name with
      | "Literal" => (Value.ofJson? content).map literal
      | "Var" => (Json.string? content).map var
      | "Local" => (Json.string? content).map binding
      | "Member" =>
        match content with
        | .array [a, .string key] => (ofJsonWithin room a).map (member · key)
        | _ => none
      | "Index" => two index
      | "Length" => one length
      | "Includes" => two includes
      | "Neg" => one neg
      | "And" => (Json.list? (ofJsonWithin room) content).map all
      | "Or" => (Json.list? (ofJsonWithin room) content).map any
      | "Not" => one not
      | _ => none

/-- Readable documents nest at most 127 deep. -/
def ofJson? (j : Json) : Option Expr := ofJsonWithin 128 j

end Expr

end Archipelago
