import Archipelago.Compile.Tree
import Archipelago.Dependency
import Archipelago.Markup.Parser
import Archipelago.Template

/-! # Compiling markup -/

namespace Archipelago

/-- What a compilation leaves, be it publishable or not. -/
structure Compilation where
  id : String
  root : Template.Node
  islands : List Island
  decls : List VariableDecl
  errors : List CompileError
  warnings : List CompileWarning

namespace Compilation

/-- The template, if there are no errors. -/
def template? (c : Compilation) : Option Template :=
  if c.errors.isEmpty then some ⟨c.id, c.root, c.islands, c.decls⟩ else none

/-- Why a template was refused: how many errors there are, and the first of them. -/
def refusal (c : Compilation) : String :=
  let first := (c.errors.head?.map CompileError.text).getD ""
  s!"template failed to compile with {c.errors.length} error(s): {first}"

/-- Markup that could not be read. -/
def rejected (id : String) (e : CompileError) : Compilation :=
  ⟨id, .fragment [], [], [], [e], []⟩

end Compilation

namespace Compile

open Markup (OpenTag RawNode)

/-- The computed variable of a declaration, with what it reads. -/
def computed? (tag : OpenTag) : Option (String × List String) :=
  if tag.name = DslTag.var.name && tag.attr? "type" = some VarType.computed.name then
    match tag.attr? "name", tag.attr? "expression" with
    | some name, some src => some (name, Template.exprReads src)
    | _, _ => none
  else none

mutual

/-- The computed variables of a tree in document order. -/
def computedVars : RawNode → List (String × List String)
  | .text .. => []
  | .element tag children => (computed? tag).toList ++ computedVarsAll children

def computedVarsAll : List RawNode → List (String × List String)
  | [] => []
  | n :: ns => computedVars n ++ computedVarsAll ns

end

/-- What the computed variables read; of a repeated name the last declaration counts. -/
def computedGraph (raw : List RawNode) : Dependency.Graph := Dict.ofList (computedVarsAll raw)

/-- The rules that a config makes for a source. -/
def rules (c : Config) (raw : List RawNode) : Rules where
  limits := c.compiler
  eval := c.eval
  minIntervalMs := c.hydration.minIntervalMs
  cyclic := (computedGraph raw).cyclic

/-- The name of a template is made from its text. -/
def templateId (src : String) : String := Hash.toId "tpl" (Hash.text Hash.templateSeed src)

/-- Compiles markup that has been read. -/
def ofRaw (c : Config) (id : String) (raw : List RawNode) : Compilation :=
  let ((_, nodes), draft) := (siblings [] false ⟨[], 1⟩ raw).run (rules c raw) |>.run {}
  let decls := draft.declared.map (·.2)
  let (root, islands) := Island.extract id decls (.fragment nodes)
  ⟨id, root, islands, decls, draft.errors, draft.warnings⟩

end Compile

/-- Compiles a text, without a look at anything but the text and the settings. -/
def compile (c : Config) (src : String) : Compilation :=
  let id := Compile.templateId src
  let most := c.compiler.maxMarkupBytes
  if most < src.utf8ByteSize then
    .rejected id ⟨.limitExceeded, s!"markup is longer than {most} bytes",
      .locate src.toList 0 0⟩
  else match Markup.parse c.compiler.maxDepth src with
    | .error e => .rejected id e
    | .ok raw => Compile.ofRaw c id raw

end Archipelago
