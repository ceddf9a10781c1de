import Archipelago.Island
import Archipelago.Variable.Codec

/-! # Compiled templates -/

namespace Archipelago

/-- A template that may be published. -/
structure Template where
  id : String
  root : Template.Node
  islands : List Island
  decls : List VariableDecl

namespace Template

/-- The first island with an id. -/
def island? (t : Template) (id : String) : Option Island := t.islands.find? (·.id = id)

def toJson (t : Template) : Json :=
  .object [("template_id", .string t.id), ("ast", t.root.toJson),
    ("islands", .array (t.islands.map Island.toJson)),
    ("declarations", .array (t.decls.map VariableDecl.toJson))]

def ofJson? (j : Json) : Option Template := do
  let r ← j.record? ["template_id", "ast", "islands", "declarations"]
  some {
    id := ← r.required "template_id" Json.string?
    root := ← r.required "ast" Node.ofJson?
    islands := ← r.required "islands" (Json.list? Island.ofJson?)
    decls := ← r.required "declarations" (Json.list? VariableDecl.ofJson?) }

/-- The text that a template is stored as. -/
def text (t : Template) : String := t.toJson.text

/-- A template from its text. -/
def parse? (text : String) : Option Template := (Json.parse text).bind ofJson?

end Template

end Archipelago
