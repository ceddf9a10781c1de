import Archipelago.Page

/-! # Documents that islands are brought to life in -/

namespace Archipelago

/-- A node of a document, by its place in the order of creation. -/
abbrev NodeId := Nat

namespace NodeId

/-- A node in messages. -/
def text (n : NodeId) : String := s!"node#{n}"

end NodeId

/-- A node knows its parent, and an element its children. -/
inductive DocumentNode where
  | element (tag : String) (attributes : Dict String) (children : List NodeId)
    (parent : Option NodeId)
  /-- Markup that is kept as it is. -/
  | html (html : String) (parent : Option NodeId)
deriving Repr

namespace DocumentNode

def parent? : DocumentNode → Option NodeId
  | element _ _ _ parent | html _ parent => parent

def children : DocumentNode → List NodeId
  | element _ _ children _ => children
  | html _ _ => []

def attributes : DocumentNode → Dict String
  | element _ attributes _ _ => attributes
  | html _ _ => []

/-- Work on the attributes of an element. Markup has none. -/
def mapAttributes (f : Dict String → Dict String) : DocumentNode → DocumentNode
  | element tag attributes children parent => element tag (f attributes) children parent
  | leaf => leaf

/-- An element with other children. Markup has none. -/
def setChildren (children : List NodeId) : DocumentNode → DocumentNode
  | element tag attributes _ parent => element tag attributes children parent
  | leaf => leaf

/-- A node in another place. -/
def setParent (parent : Option NodeId) : DocumentNode → DocumentNode
  | element tag attributes children _ => element tag attributes children parent
  | html text _ => html text parent

/-- Html has no children. -/
def addChild (child : NodeId) : DocumentNode → DocumentNode
  | element tag attributes children parent => element tag attributes (children ++ [child]) parent
  | leaf => leaf

end DocumentNode

/-- Nodes that have been replaced stay in the document, but nothing leads to them. -/
structure Document where
  nodes : Array DocumentNode := #[]
  /-- The nodes at the top. -/
  roots : List NodeId := []
deriving Repr

namespace Document

def node? (d : Document) (n : NodeId) : Option DocumentNode := d.nodes[n]?

/-- Work on one node. -/
def modify (d : Document) (n : NodeId) (f : DocumentNode → DocumentNode) : Document :=
  { d with nodes := d.nodes.modify n f }

/-- Adds a node and hangs it below its parent, or at the top if it has none. -/
def add (d : Document) (n : DocumentNode) : Document × NodeId :=
  let id := d.nodes.size
  let d := { d with nodes := d.nodes.push n }
  match n.parent? with
  | some parent => (d.modify parent (·.addChild id), id)
  | none => ({ d with roots := d.roots ++ [id] }, id)

/-- A new element, at the top or as the last child of a parent. -/
def addElement (d : Document) (parent : Option NodeId) (tag : String)
    (attributes : Dict String) : Document × NodeId :=
  d.add (.element tag attributes [] parent)

/-- New markup as the last child of a parent. -/
def addHtml (d : Document) (parent : NodeId) (html : String) : Document × NodeId :=
  d.add (.html html (some parent))

/-- A top-level element of that id. -/
def addContainer (d : Document) (id : String) : Document × NodeId :=
  d.addElement none "div" [("id", id)]

/-- A placeholder as pages have them, for an island and its component. -/
def addPlaceholder (d : Document) (parent : NodeId) (island component : String) :
    Document × NodeId :=
  d.addElement (some parent) "div"
    [(Page.islandAttr, island), (Page.componentAttr, component)]

def attr? (d : Document) (n : NodeId) (name : String) : Option String :=
  (d.node? n).bind fun x => Dict.get? x.attributes name

def setAttr (d : Document) (n : NodeId) (name value : String) : Document :=
  d.modify n (·.mapAttributes fun attributes => Dict.insert attributes name value)

def removeAttr (d : Document) (n : NodeId) (name : String) : Document :=
  d.modify n (·.mapAttributes fun attributes => Dict.erase attributes name)

def childrenOf (d : Document) (n : NodeId) : List NodeId :=
  ((d.node? n).map DocumentNode.children).getD []

def parentOf? (d : Document) (n : NodeId) : Option NodeId :=
  (d.node? n).bind DocumentNode.parent?

/-- The first element of that id. -/
def byId? (d : Document) (id : String) : Option NodeId :=
  d.nodes.findIdx? fun x => Dict.get? x.attributes "id" = some id

/-- Replaces all below an element. -/
def setInnerHtml (d : Document) (n : NodeId) (html : String) : Document :=
  match d.node? n with
  | some (.element _ _ old _) =>
    let d := d.modify n (·.setChildren [])
    let d := old.foldl (fun d c => d.modify c (·.setParent none)) d
    if html = "" then d else (d.addHtml n html).1
  | _ => d

mutual

/-- Hangs a rendered page below a node; what an island shows is kept as markup. -/
def mount (d : Document) (parent : NodeId) : Page.Node → Document
  | .text content => (d.addHtml parent (Page.escapeText content)).1
  | .raw html => (d.addHtml parent html).1
  | .fragment children => d.mountAll parent children
  | .element tag attributes children =>
    let (d, n) := d.addElement (some parent) tag (Dict.ofList attributes)
    d.mountAll n children
  | .island id component children =>
    let (d, n) := d.addPlaceholder parent id component
    let html := Page.Node.htmlAll children
    if html = "" then d else (d.addHtml n html).1

/-- Pieces of a page, one after the other. -/
def mountAll (d : Document) (parent : NodeId) : List Page.Node → Document
  | [] => d
  | n :: ns => (d.mount parent n).mountAll parent ns

end

/-! ## Walks

Children are created behind their parents, so a way down or up is no longer than the number of
nodes. -/

/-- The markup of a node, `room` levels deep. -/
def outerHtmlWithin (d : Document) : (room : Nat) → NodeId → String
  | 0, _ => ""
  | room + 1, n =>
    match d.node? n with
    | some (.element tag attributes children _) =>
      Page.openTag tag attributes ++ String.join (children.map (outerHtmlWithin d room))
        ++ Page.closeTag tag
    | some (.html html _) => html
    | none => ""

/-- An element as markup. There is room for as many levels as there are nodes. -/
def outerHtml (d : Document) (n : NodeId) : String := d.outerHtmlWithin (d.nodes.size + 1) n

/-- What is between the tags of an element. -/
def innerHtml (d : Document) (n : NodeId) : String :=
  match d.node? n with
  | some (.element _ _ children _) => String.join (children.map d.outerHtml)
  | some (.html html _) => html
  | none => ""

/-- Does the node hold the place of an island? -/
def isPlaceholder (d : Document) (n : NodeId) : Bool := (d.attr? n Page.islandAttr).isSome

/-- The placeholders below a node, in order. Nothing is looked for inside of one. -/
def placeholdersWithin (d : Document) : (room : Nat) → NodeId → List NodeId
  | 0, _ => []
  | room + 1, n =>
    (d.childrenOf n).flatMap fun c =>
      if d.isPlaceholder c then [c] else placeholdersWithin d room c

/-- The outermost placeholders below a node, in document order. -/
def placeholders (d : Document) (n : NodeId) : List NodeId :=
  d.placeholdersWithin (d.nodes.size + 1) n

/-- Is a node the ancestor or below it? The way leads up, parent by parent. -/
def containsWithin (d : Document) (ancestor : NodeId) : (room : Nat) → NodeId → Bool
  | 0, _ => false
  | room + 1, n =>
    n = ancestor ||
      match d.parentOf? n with
      | some parent => containsWithin d ancestor room parent
      | none => false

/-- Is the node the other one, or below it? -/
def contains (d : Document) (ancestor n : NodeId) : Bool :=
  d.containsWithin ancestor (d.nodes.size + 1) n

end Document

end Archipelago
