import Archipelago.Hash
import Archipelago.Template.Node.Codec
import Archipelago.Template.Reads

/-! # Islands -/

namespace Archipelago

/-- A subtree that is brought to life on its own. -/
structure Island where
  id : String
  /-- The tag of its root. -/
  component : String
  /-- The attributes of its root. -/
  props : Dict Value
  node : Template.Node
  templateId : String

namespace Island

open Template (Node)

def toJson (i : Island) : Json :=
  .object [("id", .string i.id), ("component", .string i.component),
    ("props", (Value.object i.props).toJson), ("node", i.node.toJson),
    ("template_id", .string i.templateId)]

/-- A map of values. -/
def propsOfJson? : Json → Option (Dict Value) := Json.dict? Value.ofJson?

def ofJson? (j : Json) : Option Island := do
  let r ← j.record? ["id", "component", "props", "node", "template_id"]
  some {
    id := ← r.required "id" Json.string?
    component := ← r.required "component" Json.string?
    props := ← r.withDefault "props" [] propsOfJson?
    node := ← r.required "node" Node.ofJson?
    templateId := ← r.required "template_id" Json.string? }

/-- Does a node read one of these variables? -/
def readsAny (names : List String) (n : Node) : Bool := n.reads.any (· ∈ names)

mutual

/-- Does the node have to be brought to life on its own account? A loop does so for all below it:
there is one island for a loop, never one for each round. -/
def isInteractive (names : List String) : Node → Bool
  | ⟨tag, attributes, children, span, bindings, island⟩ =>
    !bindings.isEmpty ||
      match tag with
      | .dsl .textInput | .dsl .checkbox | .dsl (.resident _) => true
      | .dsl .showVar | .dsl .ifChain | .dsl .switch =>
        readsAny names ⟨tag, attributes, children, span, bindings, island⟩
      | .dsl .forEach =>
        readsAny names ⟨tag, attributes, children, span, bindings, island⟩
          || anyInteractive names children
      | _ => false

/-- Is there such a node among these or below them? -/
def anyInteractive (names : List String) : List Node → Bool
  | [] => false
  | ⟨tag, attributes, children, span, bindings, island⟩ :: ns =>
    isInteractive names ⟨tag, attributes, children, span, bindings, island⟩
      || anyInteractive names children || anyInteractive names ns

end

/-- The names that an island tries, first to last. -/
def candidate (seed hash : UInt64) : Nat → String
  | 0 => Hash.toId "isl" hash
  | n + 1 => Hash.toId "isl" (Hash.mix seed hash (UInt64.ofNat (n + 1)))

/-- The first candidate from the `n`-th on that is not in use, or the one that comes after `fuel`
names in use. -/
def firstUnused (used : List String) (seed hash : UInt64) : (fuel : Nat) → (n : Nat) → String
  | 0, n => candidate seed hash n
  | fuel + 1, n =>
    if candidate seed hash n ∈ used then firstUnused used seed hash fuel (n + 1)
    else candidate seed hash n

/-- A candidate that is not in use. Two candidates differ unless one of them is the hash itself, so
with one probe more than there are names in use one is found. -/
def freshId (used : List String) (seed hash : UInt64) : String :=
  firstUnused used seed hash (used.length + 1) 0

/-- What the extraction of one template knows. -/
structure Survey where
  templateId : String
  reactive : List String

namespace Survey

/-- The ids of islands are made from the name of the template. -/
def seed (s : Survey) : UInt64 := Hash.text Hash.templateSeed s.templateId

/-- The island of a node, which the node is then marked with. -/
def islandOf (s : Survey) (used : List String) (n : Node) : Island :=
  let bare := { n with island := none }
  let id := freshId used s.seed (Hash.text s.seed bare.toJson.text)
  { id, component := n.tag.name, props := Dict.mapValues .string n.attributes
    node := { n with island := some id }, templateId := s.templateId }

mutual

/-- Marks the outermost interactive nodes and adds their islands to those found before. -/
def mark (s : Survey) (found : List Island) : Node → Node × List Island
  | ⟨tag, attributes, children, span, bindings, island⟩ =>
    let n : Node := ⟨tag, attributes, children, span, bindings, island⟩
    if isInteractive s.reactive n then
      let i := s.islandOf (found.map (·.id)) n
      (i.node, found ++ [i])
    else
      let (children, found) := s.markAll found children
      (⟨tag, attributes, children, span, bindings, island⟩, found)

/-- The nodes of a list are marked from left to right. -/
def markAll (s : Survey) (found : List Island) : List Node → List Node × List Island
  | [] => ([], found)
  | n :: ns =>
    let (n, found) := s.mark found n
    let (ns, found) := s.markAll found ns
    (n :: ns, found)

end

end Survey

/-- The marked tree and its islands in document order. -/
def extract (templateId : String) (decls : List VariableDecl) (root : Node) :
    Node × List Island :=
  Survey.mark ⟨templateId, Template.reactive root decls⟩ [] root

end Island

end Archipelago
