import Archipelago.Action
import Archipelago.Span
import Archipelago.Tag
import Archipelago.Variable

/-! # The tree of a template -/

namespace Archipelago

/-- Attribute text as a value: words, numbers and JSON keep their type, all else is a string. -/
def Value.ofLiteral (text : String) : Value :=
  let trimmed := Text.trim text
  match trimmed with
  | "true" => .bool true
  | "false" => .bool false
  | "null" => .null
  | _ =>
    match parseNumber trimmed with
    | some x => .number x
    | none =>
      if Text.startsWith "[" trimmed || Text.startsWith "\x7b" trimmed then
        (Value.parse? trimmed).getD (.string text)
      else .string text

namespace Template

/-- What a node is. -/
inductive NodeTag where
  /-- The root of a template. -/
  | fragment
  | text (content : String)
  | html (name : String)
  | dsl (t : DslTag)
deriving DecidableEq, Repr

namespace NodeTag

def name : NodeTag → String
  | fragment => "Fragment"
  | text _ => "#text"
  | html name => name
  | dsl t => t.name

end NodeTag

/-- A piece of a template, with where it stands in the source. -/
structure Node where
  tag : NodeTag
  attributes : Dict String := []
  children : List Node := []
  span : Span := {}
  /-- What the events of this node do. -/
  bindings : List EventBinding := []
  /-- The name of the island that this node is the root of. -/
  island : Option String := none

namespace Node

/-- Nodes next to each other. -/
def fragment (children : List Node) : Node := { tag := .fragment, children }

def attr? (n : Node) (name : String) : Option String := Dict.get? n.attributes name

/-- The tag with a meaning of its own, if the node has one. -/
def dsl? (n : Node) : Option DslTag :=
  match n.tag with
  | .dsl t => some t
  | _ => none

def isDsl (n : Node) (t : DslTag) : Bool := n.dsl? = some t

/-- The variable of a text field or a checkbox. -/
def inputVar? (n : Node) : Option String :=
  match n.dsl? with
  | some .textInput | some .checkbox => n.attr? "var"
  | _ => none

mutual

/-- The node and all below it, parents first. -/
def walk : Node → List Node
  | ⟨tag, attributes, children, span, bindings, island⟩ =>
    ⟨tag, attributes, children, span, bindings, island⟩ :: walkAll children

def walkAll : List Node → List Node
  | [] => []
  | n :: ns => walk n ++ walkAll ns

end

mutual

/-- How many nodes a tree has. -/
def count : Node → Nat
  | ⟨_, _, children, _, _, _⟩ => countAll children + 1

def countAll : List Node → Nat
  | [] => 0
  | n :: ns => count n + countAll ns

end

mutual

@[simp] theorem length_walk : (n : Node) → n.walk.length = n.count
  | ⟨_, _, children, _, _, _⟩ => by simp [walk, count, length_walkAll children]

@[simp] theorem length_walkAll : (ns : List Node) → (walkAll ns).length = countAll ns
  | [] => rfl
  | n :: ns => by simp [walkAll, countAll, length_walk n, length_walkAll ns]

end

end Node

end Template

end Archipelago
