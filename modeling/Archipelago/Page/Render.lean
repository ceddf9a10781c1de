import Archipelago.Config
import Archipelago.Island
import Archipelago.Page.Condition
import Archipelago.Page.Handler
import Archipelago.Page.Resident
import Archipelago.Page.Warning
import Archipelago.Template.Format

/-! # Rendering templates -/

namespace Archipelago

/-- A rendered template. -/
structure Page where
  root : Page.Node
  /-- The islands that are on the page, in document order. -/
  islands : List String
  handlers : Dict (List Page.Handler)
  warnings : List String

namespace Page

/-- What the placeholder of an island holds. -/
structure Content where
  children : List Node
  handlers : List Handler
  warnings : List String

/-- What a rendering depends on besides the variables. -/
structure Renderer where
  maxLoopIterations : Nat
  eval : EvalLimits
  components : Components := Resident.components

namespace Renderer

/-- The renderer that a config makes, with the built-in components. -/
def ofConfig (c : Config) : Renderer where
  maxLoopIterations := c.render.maxLoopIterations
  eval := c.eval

end Renderer

/-- A page in the making. The handlers are those of the island that is being rendered. -/
structure Drawing where
  handlers : List Handler := []
  islands : List String := []
  islandHandlers : Dict (List Handler) := []
  warnings : List Warning := []

/-- A rendering goes on with what has been drawn so far. -/
abbrev Draw := StateM Drawing

/-- A warning names the tag it is about. -/
def warn (n : Template.Node) (trouble : Trouble) : Draw Unit :=
  modify fun d => { d with warnings := d.warnings ++ [⟨n.tag.name, n.span, trouble⟩] }

/-- Adds a handler and tells its place among the handlers of its island. -/
def addHandler (h : Handler) : Draw Nat := do
  let place := (← get).handlers.length
  modify fun d => { d with handlers := d.handlers ++ [h] }
  return place

namespace View

/-- Binds an item of a loop and its place. -/
def bindItem (v : View) (n : Template.Node) (item : Value) (index : Nat) : View :=
  let frame := Dict.insert [] ((n.attr? "item").getD "item") item
  let frame := Dict.insert frame ((n.attr? "index").getD "index") (.number (Float.ofNat index))
  { v with locals := frame :: v.locals }

end View

/-- A condition that fails does not hold. -/
def condition (v : View) (n : Template.Node) : Draw Bool :=
  match v.holds n with
  | .ok b => pure b
  | .error e => do
    warn n (.condition e)
    return false

/-- Missing data shows the fallback, and so does a path that fails. -/
def showVar (v : View) (n : Template.Node) : Draw (List Node) :=
  match n.attr? "var" with
  | none => pure []
  | some path => do
    let fallback := (n.attr? "fallback").getD ""
    match v.evalPath path with
    | .ok value =>
      let format := (n.attr? "format").bind Template.ShowFormat.ofName?
      return [.text (if value.isNullish then fallback else Template.formatValue value format)]
    | .error e =>
      warn n (.showing path e)
      return [.text fallback]

/-- The value that a switch is about; one that fails is undefined. -/
def switchValue (v : View) (n : Template.Node) : Draw Value :=
  let value := match n.attr? "var", n.attr? "value" with
    | some path, _ => v.evalPath path
    | none, some src => v.evalExpr src
    | none, none => .ok .undefined
  match value with
  | .ok value => pure value
  | .error e => do
    warn n (.switching e)
    return .undefined

/-- Is this a case for the value? -/
def isCaseFor (value : Value) (c : Template.Node) : Bool :=
  c.isDsl .caseBranch &&
    match c.attr? "value" with
    | some text => value.looseEq (.ofLiteral text)
    | none => false

/-- What tells the child of a switch that is shown: a case for the value, else the default. -/
def chosen (value : Value) (children : List Template.Node) : Template.Node → Bool :=
  if children.any (isCaseFor value) then isCaseFor value else (·.isDsl .defaultBranch)

/-- The items of a loop; what is no list has none. -/
def loopItems (v : View) (n : Template.Node) (path : String) : Draw (List Value) :=
  match v.evalPath path with
  | .ok (.array items) => pure items
  | .ok value => do
    if !value.isNullish then warn n (.noArray path value.typeName)
    return []
  | .error e => do
    warn n (.iterating path e)
    return []

/-- The views of the rounds of a loop, within the limit. -/
def rounds (r : Renderer) (v : View) (n : Template.Node) : Draw (List View) :=
  match n.attr? "var" with
  | none => pure []
  | some path => do
    let items ← loopItems v n path
    let most := r.maxLoopIterations
    if most < items.length then
      warn n (.cut most items.length)
    return (items.take most).zipIdx.map fun x => v.bindItem n x.1 x.2

/-- An attribute that is passed on from the tag of a control. -/
def passed (n : Template.Node) (name : String) : Dict String :=
  match n.attr? name with
  | some value => [(name, value)]
  | none => []

/-- The actions of all bindings of a control, one after the other. -/
def bindingActions (n : Template.Node) : List Action := n.bindings.flatMap (·.actions)

/-- The attributes of a button; one that does something points at its handler. -/
def buttonAttributes (v : View) (n : Template.Node) : Draw (Dict String) := do
  let attributes := ("type", "button") :: passed n "class"
  if n.bindings.isEmpty then return attributes
  else
    let place ← addHandler
      { kind := .click, actions := bindingActions n, locals := v.locals.flatten }
    return attributes ++ [("data-tessera-on", toString place)]

/-- The attributes of a field that show the value of its variable. -/
def fieldAttributes (n : Template.Node) (checkbox : Bool) (value : Value) : Dict String :=
  if checkbox then ("type", "checkbox") :: (if value.isTruthy then [("checked", "")] else [])
  else [("type", "text"), ("value", value.display)] ++ passed n "placeholder"

/-- A field with its handler; its label goes around it. -/
def field (v : View) (n : Template.Node) (checkbox : Bool) : Draw (List Node) :=
  match n.attr? "var" with
  | none => pure []
  | some var => do
    let place ← addHandler
      { kind := .change, actions := bindingActions n, input := some ⟨var, checkbox⟩
        locals := v.locals.flatten }
    let value := (v.scope.lookup var).getD .undefined
    let input : Node := .element "input"
      (fieldAttributes n checkbox value ++ passed n "class"
        ++ [("data-tessera-input", toString place)]) []
    return match n.attr? "label" with
      | some label => [.element "label" [] [input, .text (" " ++ label)]]
      | none => [input]

/-- The handlers of mounts and intervals show nothing. -/
def lifecycle (v : View) : List EventBinding → Draw (List Node)
  | [] => pure []
  | b :: rest => do
    discard <| addHandler
      { kind := b.kind, intervalMs := b.intervalMs, actions := b.actions
        locals := v.locals.flatten }
    lifecycle v rest

/-- A component without HTML of its own leaves its place empty. -/
def residentNode (r : Renderer) (v : View) (t : ResidentTag) (attributes : Dict String) : Node :=
  match r.components t.name (Dict.mapValues .string attributes) v.scope.resident with
  | some html => .raw html
  | none => .element "div" [(componentAttr, t.name)] []

/-- Draws the root of an island that is not inside another one, with handlers of its own. -/
def enclose (island : Option String) (inside : Bool) (component : String)
    (content : Draw (List Node)) : Draw (List Node) :=
  match island, inside with
  | some id, false => do
    let outer := (← get).handlers
    modify fun d => { d with handlers := [] }
    let children ← content
    modify fun d =>
      { d with
        handlers := outer
        islands := d.islands ++ [id]
        islandHandlers := Dict.insert d.islandHandlers id d.handlers }
    return [.island id component children]
  | _, _ => content

mutual

/-- What a node shows; `inside` tells that it is part of an island. -/
def node (r : Renderer) (inside : Bool) (v : View) : Template.Node → Draw (List Node)
  | ⟨tag, attributes, children, span, bindings, island⟩ =>
    let n : Template.Node := ⟨tag, attributes, children, span, bindings, island⟩
    let inner := inside || island.isSome
    enclose island inside tag.name <|
      match tag with
      | .fragment => nodes r inner v children
      | .text content => pure [.text content]
      | .html name => do return [.element name attributes (← nodes r inner v children)]
      | .dsl .showVar => showVar v n
      | .dsl .ifChain => firstBranch r inner v children
      | .dsl .switch => do firstWhere r inner v (chosen (← switchValue v n) children) children
      | .dsl .forEach => do
        let shown ← (← rounds r v n).mapM fun v => nodes r inner v children
        return shown.flatten
      | .dsl .button => do
        let attributes ← buttonAttributes v n
        return [.element "button" attributes (← nodes r inner v children)]
      | .dsl .textInput => field v n false
      | .dsl .checkbox => field v n true
      | .dsl (.event .onMount) | .dsl (.event .onInterval) => lifecycle v bindings
      | .dsl (.resident t) => pure [residentNode r v t attributes]
      | .dsl _ => pure []

/-- Nodes are drawn from left to right. -/
def nodes (r : Renderer) (inside : Bool) (v : View) : List Template.Node → Draw (List Node)
  | [] => pure []
  | n :: ns => do
    let first ← node r inside v n
    let more ← nodes r inside v ns
    return first ++ more

/-- The children of the first branch whose condition holds. -/
def firstBranch (r : Renderer) (inside : Bool) (v : View) :
    List Template.Node → Draw (List Node)
  | [] => pure []
  | ⟨tag, attributes, children, span, bindings, island⟩ :: rest => do
    let branch : Template.Node := ⟨tag, attributes, children, span, bindings, island⟩
    let taken ← if branch.isDsl .elseBranch then pure true else condition v branch
    if taken then nodes r inside v children else firstBranch r inside v rest

/-- The children of the first node with a property. -/
def firstWhere (r : Renderer) (inside : Bool) (v : View) (p : Template.Node → Bool) :
    List Template.Node → Draw (List Node)
  | [] => pure []
  | ⟨tag, attributes, children, span, bindings, island⟩ :: rest =>
    if p ⟨tag, attributes, children, span, bindings, island⟩ then nodes r inside v children
    else firstWhere r inside v p rest

end

namespace Renderer

/-- Draws a tree; `inside` tells that it is part of an island. -/
def draw (r : Renderer) (inside : Bool) (scope : Scope) (root : Template.Node) :
    List Node × Drawing :=
  (node r inside { limits := r.eval, scope } root).run {}

/-- The page of a template. Islands that are drawn have their handlers put aside. -/
def render (r : Renderer) (scope : Scope) (root : Template.Node) : Page :=
  let (shown, d) := r.draw false scope root
  ⟨.fragment shown, d.islands, d.islandHandlers, d.warnings.map (·.text)⟩

/-- What an island shows by itself, with its own handlers. -/
def renderIsland (r : Renderer) (scope : Scope) (island : Island) : Content :=
  let (shown, d) := r.draw true scope island.node
  ⟨shown, d.handlers, d.warnings.map (·.text)⟩

end Renderer

end Page

end Archipelago
