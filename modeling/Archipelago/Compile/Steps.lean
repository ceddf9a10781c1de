import Archipelago.Compile.Draft
import Archipelago.Template.Reads

/-! # Steps of events -/

namespace Archipelago.Compile

open Markup (OpenTag RawNode)

/-- A whole number below `2 ^ 64`, trimmed. -/
def wholeNumber? (s : String) : Option Nat :=
  (Text.digitsIn? 10 (Text.trim s).toList).filter (· < 0x10000000000000000)

/-- An expression, or else a literal value. -/
def valueOperand (tag : OpenTag) (names : List String) : Attempt Operand :=
  match tag.attr? "expression" with
  | some src => do
    checkExpr tag.span ⟨names, []⟩ src
    return .expr src
  | none => do return .value (.ofLiteral (← required tag "value"))

/-- A number, or else an expression. -/
def numberOperand (tag : OpenTag) (names : List String) (text : String) : Build Operand :=
  match parseNumber text with
  | some x => pure (.value (.number x))
  | none => do
    checkExpr tag.span ⟨names, []⟩ text
    return .expr text

/-- The variable that a step writes; if it names none, `default`. -/
def targetOr (tag : OpenTag) (default : String) : Build String :=
  match tag.attr? "target" with
  | some target => do
    checkTarget tag.span target
    return target
  | none => pure default

/-- The variable that a step writes and has to name. -/
def targetOf (tag : OpenTag) : Attempt String := do
  let target ← required tag "target"
  checkTarget tag.span target
  return target

/-- The names that an expression over the items of a list may use. -/
def itemBound (names : List String) : Bound := ⟨names, ["item", "index"]⟩

/-- Checks an expression over items, if there is one. -/
def checkItemExpr (tag : OpenTag) (names : List String) : Option String → Build Unit
  | some src => checkExpr tag.span (itemBound names) src
  | none => pure ()

/-- The order of a sorting is ascending unless the tag says otherwise. -/
def sortOrder (tag : OpenTag) : Attempt SortOrder :=
  match (tag.attr? "order").getD "asc" with
  | "asc" => pure .asc
  | "desc" => pure .desc
  | other =>
    reject .invalidAttribute tag.span s!"sort order '{other}' must be asc or desc"

/-- A delay stands in a sequence, and it takes a whole number of milliseconds. -/
def delayStep (tag : OpenTag) (inSequence : Bool) : Attempt Action := do
  if !inSequence then
    reject .misplacedTag tag.span "<Delay> must be inside a <Sequence>"
  else
    let raw ← required tag "ms"
    match wholeNumber? raw with
    | some ms => return .delay ms
    | none =>
      reject .invalidAttribute tag.span
        s!"delay '{raw}' is not a whole number of milliseconds"

/-- Each source of a merge must be declared. -/
def checkSources (span : Span) : List String → Build Unit
  | [] => pure ()
  | name :: rest => do
    discard <| checkName span name
    checkSources span rest

/-- A merge reads its sources and writes its target. -/
def mergeStep (tag : OpenTag) : Attempt Action := do
  let sources := Template.splitPaths (← required tag "sources")
  let target ← required tag "target"
  checkSources tag.span sources
  checkTarget tag.span target
  return .merge sources target

/-- Does a step of this kind write the variable that it names? -/
def writesVar : ActionTag → Bool
  | .set | .increment | .decrement | .toggle | .reset | .cycle | .push | .pop | .removeAt
  | .objectSet => true
  | _ => false

/-- The step of a tag that names a variable. -/
def varStep (tag : OpenTag) (a : ActionTag) (names : List String) : Attempt Action := do
  let var ← required tag "var"
  if writesVar a then checkTarget tag.span var else discard <| checkName tag.span var
  match a with
  | .set => return .set var (← valueOperand tag names)
  | .increment => return .increment var (← amount)
  | .decrement => return .decrement var (← amount)
  | .toggle => return .toggle var
  | .reset => return .reset var
  | .pop => return .pop var
  | .cycle =>
    let values := Text.split ',' (← required tag "values")
    return .cycle var (values.map fun v => .ofLiteral (Text.trim v))
  | .push => return .push var (← valueOperand tag names)
  | .removeAt =>
    let index ← required tag "index"
    return .removeAt var (← numberOperand tag names index)
  | .objectSet =>
    let path ← required tag "path"
    return .objectSet var path (← valueOperand tag names)
  | .clone => return .clone var (← targetOf tag)
  | .filter =>
    let condition ← required tag "condition"
    checkItemExpr tag names condition
    return .filter var (← targetOr tag var) condition
  | .find =>
    let condition ← required tag "condition"
    checkItemExpr tag names condition
    return .find var (← targetOf tag) condition
  | .sort =>
    let key := tag.attr? "by"
    checkItemExpr tag names key
    let order ← sortOrder tag
    return .sort var (← targetOr tag var) key order
  | .transform =>
    let expression ← required tag "expression"
    checkItemExpr tag names expression
    return .transform var (← targetOr tag var) expression
  | .sum =>
    let expression := tag.attr? "expression"
    checkItemExpr tag names expression
    return .sum var (← targetOf tag) expression
  | .merge | .sequence | .delay => failure
where
  amount : Build Operand :=
    match tag.attr? "by" with
    | some text => numberOperand tag names text
    | none => pure (.value (.number 1.0))

mutual

/-- The actions among the children of an event or of a sequence. -/
def steps (names : List String) (inSequence : Bool) (depth : Nat) :
    List RawNode → Build (List Action)
  | [] => pure []
  | n :: rest => do
    let a ← (step names inSequence depth n).run
    let more ← steps names inSequence depth rest
    return a.toList ++ more

/-- The action that a tag stands for. There may be nothing but blanks between actions. -/
def step (names : List String) (inSequence : Bool) (depth : Nat) : RawNode → Attempt Action
  | .text content span =>
    if (RawNode.text content span).isBlank then failure
    else reject .misplacedTag span "event tags may only contain actions"
  | .element tag children =>
    match DslTag.ofName? tag.name with
    | some (.action a) => do
      if !(← countElement tag.span depth) then failure
      match a with
      | .sequence => return .sequence (← steps names true (depth + 1) children)
      | .delay => delayStep tag inSequence
      | .merge => mergeStep tag
      | a => varStep tag a names
    | _ => reject .misplacedTag tag.span s!"<{tag.name}> is not an action"

end

end Archipelago.Compile
