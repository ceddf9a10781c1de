import Archipelago.Dict

/-! # Rendered pages -/

namespace Archipelago.Page

/-- A piece of a page. -/
inductive Node where
  | text (content : String)
  /-- Trusted markup of a component. -/
  | raw (html : String)
  | fragment (children : List Node)
  | element (tag : String) (attributes : Dict String) (children : List Node)
  /-- The placeholder of an island, and what it shows at first. -/
  | island (id component : String) (children : List Node)
deriving Repr, Inhabited

/-! ## Pages as HTML -/

/-- A character as it may stand in a text. -/
def escapeTextChar (c : Char) : List Char :=
  if c = '&' then ['&', 'a', 'm', 'p', ';']
  else if c = '<' then ['&', 'l', 't', ';']
  else if c = '>' then ['&', 'g', 't', ';']
  else [c]

/-- A character as it may stand in a value between quotes. -/
def escapeAttrChar (c : Char) : List Char :=
  if c = '"' then ['&', 'q', 'u', 'o', 't', ';']
  else if c = '\'' then ['&', '#', '3', '9', ';']
  else escapeTextChar c

/-- A text as markup. -/
def escapeText (s : String) : String := String.ofList (s.toList.flatMap escapeTextChar)

/-- For a value between double quotes. -/
def escapeAttr (s : String) : String := String.ofList (s.toList.flatMap escapeAttrChar)

/-- Attributes that tie an island to its place in a page. -/
def islandAttr : String := "data-tessera-island"

/-- The attribute that names the component of an island. -/
def componentAttr : String := "data-tessera-component"

/-- Elements without children and without a closing tag. -/
def voidElements : List String := ["br", "hr", "img", "input"]

/-- An attribute, with a blank in front of it. -/
def attrText (name value : String) : String := " " ++ name ++ "=\"" ++ escapeAttr value ++ "\""

def attrTexts (attributes : Dict String) : String :=
  String.join (attributes.map fun a => attrText a.1 a.2)

/-- An opening tag with its attributes in order. -/
def openTag (tag : String) (attributes : Dict String) : String :=
  "<" ++ tag ++ attrTexts attributes ++ ">"

def closeTag (tag : String) : String := "</" ++ tag ++ ">"

/-- The opening tag of the placeholder of an island. -/
def islandOpenTag (id component : String) : String :=
  openTag "div" [(islandAttr, id), (componentAttr, component)]

namespace Node

mutual

/-- The markup of a piece of a page. -/
def html : Node → String
  | text content => escapeText content
  | raw html => html
  | fragment children => htmlAll children
  | element tag attributes children =>
    if voidElements.contains tag then openTag tag attributes
    else openTag tag attributes ++ htmlAll children ++ closeTag tag
  | island id component children =>
    islandOpenTag id component ++ htmlAll children ++ closeTag "div"

def htmlAll : List Node → String
  | [] => ""
  | n :: ns => html n ++ htmlAll ns

end

end Node

end Archipelago.Page
