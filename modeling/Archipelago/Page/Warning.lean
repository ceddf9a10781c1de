import Archipelago.Expr.Error
import Archipelago.Template.Node

/-! # What goes wrong in a rendering -/

namespace Archipelago.Page

/-- Why a part of a page is not shown as it was meant to be. -/
inductive Trouble where
  /-- The condition of a branch fails. -/
  | condition (e : EvalError)
  | showing (path : String) (e : EvalError)
  | switching (e : EvalError)
  | iterating (path : String) (e : EvalError)
  | noArray (path typeName : String)
  /-- A loop has more items than are shown. -/
  | cut (most items : Nat)
deriving DecidableEq, Repr

namespace Trouble

/-- What is shown of what went wrong. -/
def message : Trouble → String
  | condition e => s!"condition failed: {e.message}"
  | showing path e => s!"cannot show '{path}': {e.message}"
  | switching e => s!"switch value failed: {e.message}"
  | iterating path e => s!"cannot iterate '{path}': {e.message}"
  | noArray path typeName => s!"'{path}' is a {typeName}, not an array"
  | cut most items => s!"only the first {most} of {items} items are shown"

/-- The error of an evaluation, if one has failed. -/
def error? : Trouble → Option EvalError
  | condition e | showing _ e | switching e | iterating _ e => some e
  | noArray _ _ | cut _ _ => none

end Trouble

/-- A trouble and the node that has it. -/
structure Warning where
  tag : String
  span : Span
  trouble : Trouble
deriving DecidableEq, Repr

namespace Warning

def text (w : Warning) : String := s!"{w.tag} at {w.span.text}: {w.trouble.message}"

end Warning

end Archipelago.Page
