import Archipelago.Compile.Steps
import Archipelago.Template.Comparison
import Archipelago.Template.Format

/-! # Elements -/

namespace Archipelago.Compile

open Markup (OpenTag RawNode)
open Template (Node)

/-- Children of a tag that takes none may only be blank. -/
def ignoreChildren (tag : OpenTag) (children : List RawNode) : Build Unit := do
  if children.any fun c => !c.isBlank then warn tag.span s!"children of <{tag.name}> are ignored"

/-! ## Declarations -/

/-- A computed variable needs an expression, and it must not be on a cycle. -/
def computedDecl (tag : OpenTag) (name : String) : Attempt VariableDecl := do
  let src ← required tag "expression"
  if (← read).cyclic.contains name then
    report .cyclicComputed tag.span s!"computed variable '{name}' depends on itself"
  else checkExpr tag.span ⟨[], []⟩ src
  return { name, type := .computed, initial := .null, expression := some src }

/-- A parameter of the address falls back on a text. -/
def urlParamDecl (tag : OpenTag) (name : String) : VariableDecl :=
  let default := ((tag.attr? "default").or (tag.attr? "initial")).getD ""
  { name, type := .urlParam, initial := .string default, param := tag.attr? "param" }

/-- The initial value of a declaration; one that cannot be read is reported. -/
def initialValue (tag : OpenTag) (type : VarType) : Build Value :=
  match tag.attr? "initial" with
  | none => pure type.zero
  | some text =>
    match type.parseInitial text with
    | some v => pure v
    | none => do
      report .invalidAttribute tag.span s!"initial value '{text}' is not a valid {type.name}"
      return type.zero

/-- A variable that is written has an initial value of its type. -/
def plainDecl (tag : OpenTag) (name : String) (type : VarType) : Build VariableDecl := do
  let persist := tag.attr? "persist" = some "" || tag.attr? "persist" = some "true"
  return { name, type, initial := ← initialValue tag type, persist }

/-- A declaration is known by its name from then on, and it shows nothing. -/
def declaration (tag : OpenTag) (children : List RawNode) : Attempt Node := do
  let name ← required tag "name"
  if !isIdentifier name then
    reject .invalidAttribute tag.span s!"'{name}' is not a valid variable name"
  else
    let typeName := (tag.attr? "type").getD "string"
    match VarType.ofName? typeName with
    | none => reject .invalidAttribute tag.span s!"unknown variable type '{typeName}'"
    | some type =>
      if Dict.contains (← get).declared name then
        reject .duplicateVariable tag.span s!"variable '{name}' is declared twice"
      else
        ignoreChildren tag children
        let decl ← match type with
          | .computed => computedDecl tag name
          | .urlParam => pure (urlParamDecl tag name)
          | type => plainDecl tag name type
        modify fun d => { d with declared := Dict.insert d.declared name decl }
        return nodeOf tag .var

/-! ## Display and conditions -/

/-- A text that shows a variable, with a format that must be one of those there are. -/
def showVar (tag : OpenTag) (names : List String) : Attempt Node := do
  checkPath tag.span names (← required tag "var")
  if let some format := tag.attr? "format" then
    if (Template.ShowFormat.ofName? format).isNone then
      report .invalidAttribute tag.span s!"unknown format '{format}'"
  return nodeOf tag .showVar

/-- Checks the expression of an attribute, if it is there. -/
def checkAttrExpr (tag : OpenTag) (names : List String) (attr : String) : Build Unit :=
  match tag.attr? attr with
  | some src => checkExpr tag.span ⟨names, []⟩ src
  | none => pure ()

/-- The path in an attribute, if there is one. -/
def checkAttrPath (tag : OpenTag) (names : List String) (attr : String) : Build Unit :=
  match tag.attr? attr with
  | some path => checkPath tag.span names path
  | none => pure ()

/-- The paths in an attribute, if there are any. -/
def checkAttrPaths (tag : OpenTag) (names : List String) (attr : String) : Build Unit :=
  match tag.attr? attr with
  | some paths => checkPaths tag.span names (Template.splitPaths paths)
  | none => pure ()

/-- Attributes that make up a condition. -/
def conditionAttrs : List String := ["condition", "var", "and", "or", "not"]

/-- All the attributes of a branch that say when it is shown. -/
def checkCondition (tag : OpenTag) (names : List String) : Build Unit := do
  let has (attr : String) : Bool := (tag.attr? attr).isSome
  checkAttrExpr tag names "condition"
  checkAttrPath tag names "var"
  if !has "var" then
    if let some c := Template.Comparison.all.find? fun c => has c.name then
      report .missingAttribute tag.span s!"'{c.name}' needs a 'var' to compare"
  checkAttrPaths tag names "and"
  checkAttrPaths tag names "or"
  checkAttrPath tag names "not"
  if !conditionAttrs.any has then
    report .missingAttribute tag.span
      s!"<{tag.name}> needs a condition, var, and, or or not attribute"

/-- A switch is about a path or about an expression. -/
def checkSwitch (tag : OpenTag) (names : List String) : Build Unit :=
  match tag.attr? "var", tag.attr? "value" with
  | some path, _ => checkPath tag.span names path
  | none, some src => checkExpr tag.span ⟨names, []⟩ src
  | none, none =>
    report .missingAttribute tag.span "<Switch> requires a 'var' or 'value' attribute"

/-- The attributes of a structural element that are not unsafe. -/
def safeAttributes (tag : OpenTag) : List Markup.Attr → Build (List (String × String))
  | [] => pure []
  | a :: rest =>
    match unsafeReason? a.name a.value with
    | some reason => do
      warn a.span s!"removed '{a.name}' from <{tag.name}>: {reason}"
      safeAttributes tag rest
    | none => do return (a.name, a.value) :: (← safeAttributes tag rest)

/-! ## Events -/

/-- The bindings of the events of one name among the children of a control. -/
def eventBindings (event : EventTag) (kind : EventKind) (names : List String) (depth : Nat) :
    List RawNode → Build (List EventBinding)
  | [] => pure []
  | .element tag children :: rest => do
    if tag.name = event.name then
      if ← countElement tag.span depth then
        let actions ← steps names false (depth + 1) children
        return { kind, actions } :: (← eventBindings event kind names depth rest)
    eventBindings event kind names depth rest
  | .text .. :: rest => eventBindings event kind names depth rest

/-- The bindings of a field, which may hold nothing else. -/
def fieldBindings (field : OpenTag) (names : List String) (depth : Nat) :
    List RawNode → Build (List EventBinding)
  | [] => pure []
  | n :: rest => do
    match n with
    | .element tag children =>
      if tag.name = EventTag.onChange.name then
        if ← countElement tag.span depth then
          let actions ← steps names false (depth + 1) children
          return { kind := .change, actions } :: (← fieldBindings field names depth rest)
      else misplaced n
    | .text .. => if !n.isBlank then misplaced n
    fieldBindings field names depth rest
where
  misplaced (n : RawNode) : Build Unit :=
    report .misplacedTag n.span s!"<{field.name}> may only contain <OnChange>"

/-- A field writes the variable that it shows. -/
def inputField (tag : OpenTag) (t : DslTag) (names : List String) (depth : Nat)
    (children : List RawNode) : Attempt Node := do
  let var ← required tag "var"
  if ← checkName tag.span var then
    if ← isReadOnly var then
      report .invalidAttribute tag.span
        s!"<{tag.name}> cannot bind read-only variable '{var}'"
  return { nodeOf tag t with bindings := ← fieldBindings tag names (depth + 1) children }

/-- The actions are checked before the interval. -/
def lifecycle (tag : OpenTag) (e : EventTag) (names : List String) (depth : Nat)
    (children : List RawNode) : Attempt Node := do
  let actions ← steps names false (depth + 1) children
  if e = .onInterval then
    let raw ← required tag "interval"
    let least := (← read).minIntervalMs
    match (wholeNumber? raw).filter (least ≤ ·) with
    | some ms =>
      return { nodeOf tag (.event e) with
        bindings := [{ kind := .interval, intervalMs := some ms, actions }] }
    | none =>
      reject .invalidAttribute tag.span
        s!"interval '{raw}' must be a whole number of at least {least} ms"
  else return { nodeOf tag (.event e) with bindings := [{ kind := .mount, actions }] }

/-- A tag outside the parent that it needs. -/
def misplaced (tag : OpenTag) (place : String) : Attempt Node :=
  reject .misplacedTag tag.span s!"<{tag.name}> must {place}"

/-- Tags without children of their own. -/
def leaf (tag : OpenTag) (t : DslTag) (names : List String) (depth : Nat)
    (children : List RawNode) : Attempt Node :=
  match t with
  | .var => declaration tag children
  | .showVar => showVar tag names
  | .textInput | .checkbox => inputField tag t names depth children
  | .event .onMount => lifecycle tag .onMount names depth children
  | .event .onInterval => lifecycle tag .onInterval names depth children
  | .event .onClick => misplaced tag "be inside <Button>"
  | .event .onChange => misplaced tag "be inside an input"
  | .action _ => misplaced tag "be inside an event tag"
  | .resident _ => do
    ignoreChildren tag children
    return nodeOf tag t
  | .caseBranch | .defaultBranch => misplaced tag "follow <Switch>"
  | .ifChain | .ifBranch | .elseIfBranch | .elseBranch => misplaced tag "follow an <If>"
  | .switch | .forEach | .button => failure

end Archipelago.Compile
