import Archipelago.Compile
import Archipelago.Proofs.Expr.Paths
import Archipelago.Proofs.Page.Coverage

/-!
# What a clean compilation has checked

A tree is checked if each of its expressions and paths can be read, and refers to nothing but
variables that are known and names that are bound around it; and if each variable that is written
is known.
-/

namespace Archipelago

open Template (splitPaths)

namespace Template.Node

theorem tag_of_isDsl {n : Node} {t : DslTag} (h : n.isDsl t = true) : n.tag = .dsl t := by
  have hdsl : n.dsl? = some t := of_decide_eq_true h
  unfold dsl? at hdsl
  split at hdsl
  · rename_i other htag
    exact htag.trans (congrArg _ (Option.some.inj hdsl))
  · cases hdsl

/-- Is it a branch of an `If` chain? -/
def isBranch (n : Node) : Bool :=
  n.isDsl .ifBranch || n.isDsl .elseIfBranch || n.isDsl .elseBranch

theorem isBranch_iff {n : Node} :
    n.isBranch = true ↔
      n.dsl? = some .ifBranch ∨ n.dsl? = some .elseIfBranch ∨ n.dsl? = some .elseBranch := by
  simp only [isBranch, isDsl, Bool.or_eq_true, decide_eq_true_eq, or_assoc]

theorem not_forEach_of_isBranch {n : Node} (h : n.isBranch = true) : n.isDsl .forEach = false := by
  rcases isBranch_iff.1 h with h | h | h
  all_goals rw [isDsl, h]; rfl

end Template.Node

/-- What names stand for in a template, and within which limits it is read. -/
structure Scoping where
  limits : EvalLimits
  known : String → Prop

namespace Scoping

variable (sc : Scoping) (names : List String)

/-- Variables are known or bound; bare names are bound, or are among those of an item. -/
structure Closed (bare : List String) (e : Expr) : Prop where
  vars : ∀ name, e.ReadsVar name → name ∈ names ∨ sc.known name
  bindings : ∀ name, e.ReadsBinding name → name ∈ names ∨ name ∈ bare

/-- An expression that can be read, and all that it reads is there. -/
def CheckedExpr (src : String) : Prop :=
  ∃ e, Expr.parse sc.limits src = .ok e ∧ sc.Closed names [] e

/-- An expression over the items of a list. -/
def CheckedItemExpr (src : String) : Prop :=
  ∃ e, Expr.parse sc.limits src = .ok e ∧ sc.Closed names ["item", "index"] e

/-- A path that can be read, and all that it reads is there. -/
def CheckedPath (path : String) : Prop :=
  ∃ e, Expr.parsePath sc.limits path = .ok e ∧ sc.Closed names [] e

/-! ## Actions -/

/-- A value is nothing to check. -/
def CheckedOperand : Operand → Prop
  | .value _ => True
  | .expr src => sc.CheckedExpr names src

mutual

/-- All variables of an action are known, and its expressions are checked. -/
def CheckedAction : Action → Prop
  | .set var v | .increment var v | .decrement var v | .push var v | .removeAt var v
  | .objectSet var _ v => sc.known var ∧ sc.CheckedOperand names v
  | .toggle var | .reset var | .cycle var _ | .pop var => sc.known var
  | .merge sources target => (∀ var ∈ sources, sc.known var) ∧ sc.known target
  | .clone var target => sc.known var ∧ sc.known target
  | .filter var target src | .transform var target src | .find var target src =>
    sc.known var ∧ sc.known target ∧ sc.CheckedItemExpr names src
  | .sort var target key _ =>
    sc.known var ∧ sc.known target ∧ ∀ src, key = some src → sc.CheckedItemExpr names src
  | .sum var target e =>
    sc.known var ∧ sc.known target ∧ ∀ src, e = some src → sc.CheckedItemExpr names src
  | .sequence steps => CheckedSteps steps
  | .delay _ => True

def CheckedSteps : List Action → Prop
  | [] => True
  | a :: as => CheckedAction a ∧ CheckedSteps as

end

/-! ## Nodes -/

/-- All the attributes of a branch that say when it is shown. -/
def CheckedCondition (n : Template.Node) : Prop :=
  (∀ src, n.attr? "condition" = some src → sc.CheckedExpr names src) ∧
    (∀ path, n.attr? "var" = some path → sc.CheckedPath names path) ∧
    (∀ paths, n.attr? "and" = some paths → ∀ path ∈ splitPaths paths, sc.CheckedPath names path) ∧
    (∀ paths, n.attr? "or" = some paths → ∀ path ∈ splitPaths paths, sc.CheckedPath names path) ∧
    ∀ path, n.attr? "not" = some path → sc.CheckedPath names path

/-- The attributes of the node itself; a chain has those of its branches, and nothing but
branches. -/
def CheckedAttributes (n : Template.Node) : Prop :=
  match n.dsl? with
  | some .showVar => ∀ path, n.attr? "var" = some path → sc.CheckedPath names path
  | some .forEach =>
    (∀ path, n.attr? "var" = some path → sc.CheckedPath names path) ∧
      ∀ name ∈ n.loopNames, Compile.isIdentifier name = true
  | some .textInput | some .checkbox => ∀ var, n.attr? "var" = some var → sc.known var
  | some .switch =>
    match n.attr? "var", n.attr? "value" with
    | some path, _ => sc.CheckedPath names path
    | none, some src => sc.CheckedExpr names src
    | none, none => True
  | some .ifChain =>
    ∀ c ∈ n.children, c.isBranch = true ∧
      (c.isDsl .elseBranch = false → sc.CheckedCondition names c)
  | _ => True

/-- What is checked of a node itself. -/
structure CheckedNode (n : Template.Node) : Prop where
  attributes : sc.CheckedAttributes names n
  bindings : ∀ b ∈ n.bindings, sc.CheckedSteps names b.actions

mutual

/-- The node and all below it are checked, where these names are bound around it. -/
def Checked (names : List String) : Template.Node → Prop
  | ⟨tag, attributes, children, span, bindings, island⟩ =>
    let n : Template.Node := ⟨tag, attributes, children, span, bindings, island⟩
    sc.CheckedNode names n ∧ CheckedAll (names ++ n.loopNames) children

def CheckedAll (names : List String) : List Template.Node → Prop
  | [] => True
  | n :: ns => Checked names n ∧ CheckedAll names ns

end

theorem checked_iff {n : Template.Node} :
    sc.Checked names n ↔
      sc.CheckedNode names n ∧ sc.CheckedAll (names ++ n.loopNames) n.children := by
  obtain ⟨tag, attributes, children, span, bindings, island⟩ := n
  rfl

theorem checkedAll_iff {ns : List Template.Node} :
    sc.CheckedAll names ns ↔ ∀ n ∈ ns, sc.Checked names n := by
  induction ns with
  | nil => simp [CheckedAll]
  | cons n ns ih => simp [CheckedAll, ih]

theorem checkedSteps_iff {as : List Action} :
    sc.CheckedSteps names as ↔ ∀ a ∈ as, sc.CheckedAction names a := by
  induction as with
  | nil => simp [CheckedSteps]
  | cons a as ih => simp [CheckedSteps, ih]

end Scoping

end Archipelago
