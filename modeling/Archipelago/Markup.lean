import Archipelago.Span
import Archipelago.Template.Error

/-! # Markup as it is written -/

namespace Archipelago

namespace Markup

/-- An attribute with its decoded value; one without a value has an empty one. -/
structure Attr where
  name : String
  value : String
  span : Span
deriving DecidableEq, Repr

/-- The opening tag of an element. -/
structure OpenTag where
  name : String
  attrs : List Attr
  span : Span
deriving DecidableEq, Repr

namespace OpenTag

/-- The value of the first attribute of that name. -/
def attr? (t : OpenTag) (name : String) : Option String :=
  (t.attrs.find? (·.name = name)).map (·.value)

end OpenTag

/-- A node of the tree as it is written. -/
inductive RawNode where
  | element (tag : OpenTag) (children : List RawNode)
  | text (content : String) (span : Span)
deriving Repr

namespace RawNode

/-- Where a node stands in its source. -/
def span : RawNode → Span
  | element tag _ => tag.span
  | text _ span => span

/-- Text of blanks only. -/
def isBlank : RawNode → Bool
  | text content _ => content.toList.all Text.isBlank
  | element _ _ => false

end RawNode

/-- Elements without children and without a closing tag. -/
def voidElements : List String := ["br", "hr", "img"]

end Markup

end Archipelago
