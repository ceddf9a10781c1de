import Archipelago.Compile.Elements

/-! # Trees of elements -/

namespace Archipelago.Compile

open Markup (OpenTag RawNode)
open Template (Node)

/-- The bindings of a loop, which have to be identifiers. -/
def loopBindings (tag : OpenTag) : Attempt (List String) := do
  let item := (tag.attr? "item").getD "item"
  let index := (tag.attr? "index").getD "index"
  match [item, index].find? fun name => !isIdentifier name with
  | some name => reject .invalidAttribute tag.span s!"'{name}' is not a valid loop binding"
  | none => return [item, index]

/-- Names of elements that siblings are read without. -/
abbrev Skipped := List String

/-- Does an `If` chain go on with these siblings? Blank text in between belongs to the chain. -/
def chainGoesOn (skipped : Skipped) : List RawNode → Bool
  | [] => false
  | .text content span :: rest =>
    (RawNode.text content span).isBlank && chainGoesOn skipped rest
  | .element tag _ :: rest =>
    if skipped.contains tag.name then chainGoesOn skipped rest
    else tag.name = DslTag.elseIfBranch.name || tag.name = DslTag.elseBranch.name

/-- Where an element stands. -/
structure Place where
  /-- Loop bindings in force. -/
  names : List String
  depth : Nat

namespace Place

/-- The same place, so many levels deeper. -/
def below (p : Place) (levels : Nat) : Place := { p with depth := p.depth + levels }

end Place

/-- A case without a value is reported but kept. -/
def checkCaseValue (tag : OpenTag) : Build Unit := do
  let _ ← (required tag "value").run

/-- Something in a switch that is no case. -/
def notCase (span : Span) : Build Unit :=
  report .misplacedTag span "<Switch> may only contain <Case> and <Default>"

mutual

/-- The nodes of siblings. `inChain` tells that a branch of an `If` chain stands in front of them;
the branches that go on with it come first. -/
def siblings (skipped : Skipped) (inChain : Bool) (p : Place) :
    List RawNode → Build (List Node × List Node)
  | [] => pure ([], [])
  | .text content span :: rest => do
    if inChain && (RawNode.text content span).isBlank && chainGoesOn skipped rest then
      siblings skipped true p rest
    else
      let (_, more) ← siblings skipped false p rest
      return ([], { tag := .text content, span } :: more)
  | .element tag children :: rest => do
    if skipped.contains tag.name then siblings skipped inChain p rest
    else if inChain && tag.name = DslTag.elseIfBranch.name then
      let b ← (branch .elseIfBranch p (.element tag children)).run
      let (branches, more) ← siblings skipped true p rest
      return (b.toList ++ branches, more)
    else if inChain && tag.name = DslTag.elseBranch.name then
      let b ← (branch .elseBranch p (.element tag children)).run
      let (_, more) ← siblings skipped false p rest
      return (b.toList, more)
    else if tag.name = DslTag.ifBranch.name then
      let b ← (branch .ifBranch p (.element tag children)).run
      let (branches, more) ← siblings skipped true p rest
      let chain : Node :=
        { tag := .dsl .ifChain, children := b.toList ++ branches, span := tag.span }
      return ([], chain :: more)
    else
      let n ← (element p (.element tag children)).run
      let (_, more) ← siblings skipped false p rest
      return ([], n.toList ++ more)

/-- A branch of an `If` chain. -/
def branch (t : DslTag) (p : Place) : RawNode → Attempt Node
  | .text .. => failure
  | .element tag children => do
    if !(← countElement tag.span p.depth) then failure
    if t ≠ .elseBranch then checkCondition tag p.names
    let (_, nodes) ← siblings [] false (p.below 1) children
    return { nodeOf tag t with children := nodes }

/-- The cases of a switch. -/
def cases (p : Place) : List RawNode → Build (List Node)
  | [] => pure []
  | n :: rest => do
    let c ← (caseOf p n).run
    let more ← cases p rest
    return c.toList ++ more

/-- A case of a switch; a switch has nothing else in it. -/
def caseOf (p : Place) : RawNode → Attempt Node
  | .text content span => do
    if !(RawNode.text content span).isBlank then notCase span
    failure
  | .element tag children => do
    if tag.name = DslTag.caseBranch.name then
      if !(← countElement tag.span p.depth) then failure
      checkCaseValue tag
      let (_, nodes) ← siblings [] false (p.below 1) children
      return { nodeOf tag .caseBranch with children := nodes }
    else if tag.name = DslTag.defaultBranch.name then
      if !(← countElement tag.span p.depth) then failure
      let (_, nodes) ← siblings [] false (p.below 1) children
      return { nodeOf tag .defaultBranch with children := nodes }
    else
      notCase tag.span
      failure

/-- An element that is no branch. -/
def element (p : Place) : RawNode → Attempt Node
  | .text .. => failure
  | .element tag children => do
    if !(← countElement tag.span p.depth) then failure
    if isHtmlTag tag.name then
      let attributes ← safeAttributes tag tag.attrs
      let (_, nodes) ← siblings [] false (p.below 1) children
      return { tag := .html tag.name, attributes := Dict.ofList attributes, children := nodes
               span := tag.span }
    else match DslTag.ofName? tag.name with
      | none => reject .unknownTag tag.span s!"unknown tag <{tag.name}>"
      | some .switch =>
        checkSwitch tag p.names
        return { nodeOf tag .switch with children := ← cases (p.below 1) children }
      | some .forEach =>
        checkPath tag.span p.names (← required tag "var")
        let bindings ← loopBindings tag
        let inner : Place := ⟨p.names ++ bindings, p.depth + 1⟩
        let (_, nodes) ← siblings [] false inner children
        return { nodeOf tag .forEach with children := nodes }
      | some .button =>
        let click := EventTag.onClick
        let bindings ← eventBindings click .click p.names (p.depth + 1) children
        let (_, nodes) ← siblings [click.name] false (p.below 1) children
        return { nodeOf tag .button with children := nodes, bindings }
      | some t => leaf tag t p.names p.depth children

end

end Archipelago.Compile
