import Archipelago.Action.Codec
import Archipelago.Template.Error
import Archipelago.Template.Node

/-! # Template trees as JSON -/

namespace Archipelago

namespace Json

/-- Texts by name. -/
def ofTexts (d : Dict String) : Json := .object (Dict.mapValues .string d)

end Json

namespace Template

namespace NodeTag

def toJson : NodeTag → Json
  | fragment => .string "Fragment"
  | text content => .variant "Text" (.string content)
  | html name => .variant "Html" (.string name)
  | dsl t => .variant "Dsl" (.string t.name)

def ofJson? (j : Json) : Option NodeTag :=
  (Json.unit? [("Fragment", fragment)] j).or do
    let (name, content) ← Json.variant? j
    match name with
    | "Text" => (Json.string? content).map text
    | "Html" => (Json.string? content).map html
    | "Dsl" => (DslTag.ofJson? content).map dsl
    | _ => none

end NodeTag

namespace Node

/-- A list that is left out when it is empty. -/
def listField {α : Type} (items : List α) (encode : List α → Json) : Option Json :=
  if items.isEmpty then none else some (encode items)

mutual

def toJson : Node → Json
  | ⟨tag, attributes, children, span, bindings, island⟩ =>
    .fields [("tag", some tag.toJson), ("attributes", listField attributes Json.ofTexts),
      ("children", if children.isEmpty then none else some (.array (toJsonAll children))),
      ("span", some span.toJson),
      ("bindings", listField bindings fun bs => .array (bs.map EventBinding.toJson)),
      ("island", island.map .string)]

def toJsonAll : List Node → List Json
  | [] => []
  | n :: ns => toJson n :: toJsonAll ns

end

def fieldNames : List String := ["tag", "attributes", "children", "span", "bindings", "island"]

/-- Reads a tree that is nested at most `room` deep. -/
def ofJsonWithin : (room : Nat) → Json → Option Node
  | 0, _ => none
  | room + 1, j => do
    let r ← j.record? fieldNames
    some {
      tag := ← r.required "tag" NodeTag.ofJson?
      attributes := ← r.withDefault "attributes" [] (Json.dict? Json.string?)
      children := ← r.withDefault "children" [] (Json.list? (ofJsonWithin room))
      span := ← r.withDefault "span" {} Span.ofJson?
      bindings := ← r.withDefault "bindings" [] (Json.list? EventBinding.ofJson?)
      island := ← r.optionalDefault "island" Json.string? }

/-- Readable documents nest at most 127 deep. -/
def ofJson? (j : Json) : Option Node := ofJsonWithin 128 j

end Node

end Template

end Archipelago
