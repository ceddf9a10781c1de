import Archipelago.Page.Render
import Archipelago.Proofs.Basics
import Archipelago.Proofs.Expr.Agreement

/-!
# What a page is rendered from

A tree is covered by a list of names if no attribute that a rendering looks at can read a variable
outside the list. A covered tree is rendered alike from all stores that agree on the list.
-/

namespace Archipelago

/-- Two scopes give the same for these names, and have the same resident. -/
structure Scope.AgreeOn (names : List String) (s t : Scope) : Prop where
  lookup : ∀ name ∈ names, s.lookup name = t.lookup name
  resident : s.resident = t.resident

theorem Scope.AgreeOn.eval {reads : List String} {s t : Scope} (h : AgreeOn reads s t) {e : Expr}
    (he : ∀ dep ∈ e.dependencies, dep ∈ reads) (l : Locals) : e.eval s l = e.eval t l :=
  Expr.eval_eq_of_dependencies l (fun dep hd => h.lookup dep (he dep hd)) h.resident

theorem Locals.get?_cons (frame : Dict Value) (l : Locals) (name : String) :
    Locals.get? (frame :: l) name = (Dict.get? frame name).or (l.get? name) := rfl

namespace Page

namespace View

/-- The same view of other variables. -/
def withScope (v : View) (s : Scope) : View := { v with scope := s }

/-- A view under these limits that binds no other names than these. -/
structure Within (limits : EvalLimits) (names : List String) (v : View) : Prop where
  limits : v.limits = limits
  names : ∀ name, (v.locals.get? name).isSome = true → name ∈ names

end View

end Page

/-! ## Coverage -/

namespace Template.Node

open Page (View)

/-- The names that a loop binds in each of its rounds. -/
def loopNames (n : Node) : List String :=
  if n.isDsl .forEach then [(n.attr? "item").getD "item", (n.attr? "index").getD "index"] else []

end Template.Node

namespace Page

open Template (splitPaths)

/-- What is known of a place in a page: the limits, and the variables that a rendering is said to
read. -/
structure Known where
  limits : EvalLimits
  reads : List String

namespace Known

variable (k : Known) (names : List String)

/-- An expression reads no other variables than the ones that are known to be read. -/
def CoversExpr (src : String) : Prop :=
  ∀ e, Expr.parse k.limits src = .ok e → ∀ dep ∈ e.dependencies, dep ∈ k.reads

/-- A path is covered where these names may be bound. -/
def CoversPath (path : String) : Prop :=
  ∀ v, View.Within k.limits names v →
    ∀ e, v.pathExpr path = .ok e → ∀ dep ∈ e.dependencies, dep ∈ k.reads

/-- All the attributes of a branch that say when it is shown. -/
def CoversCondition (n : Template.Node) : Prop :=
  (∀ src, n.attr? "condition" = some src → k.CoversExpr src) ∧
    (∀ path, n.attr? "var" = some path → k.CoversPath names path) ∧
    (∀ paths, n.attr? "and" = some paths → ∀ path ∈ splitPaths paths, k.CoversPath names path) ∧
    (∀ paths, n.attr? "or" = some paths → ∀ path ∈ splitPaths paths, k.CoversPath names path) ∧
    ∀ path, n.attr? "not" = some path → k.CoversPath names path

/-- The attributes that a rendering of the node itself looks at; a chain looks at those of its
branches. -/
def CoversNode (n : Template.Node) : Prop :=
  match n.dsl? with
  | some .showVar | some .forEach => ∀ path, n.attr? "var" = some path → k.CoversPath names path
  | some .textInput | some .checkbox => ∀ var, n.attr? "var" = some var → var ∈ k.reads
  | some .switch =>
    match n.attr? "var", n.attr? "value" with
    | some path, _ => k.CoversPath names path
    | none, some src => k.CoversExpr src
    | none, none => True
  | some .ifChain => ∀ c ∈ n.children, c.isDsl .elseBranch = false → k.CoversCondition names c
  | _ => True

mutual

/-- The node and all below it are covered. -/
def Covers (names : List String) : Template.Node → Prop
  | ⟨tag, attributes, children, span, bindings, island⟩ =>
    let n : Template.Node := ⟨tag, attributes, children, span, bindings, island⟩
    k.CoversNode names n ∧ CoversAll (names ++ n.loopNames) children

/-- The same of all nodes of a list. -/
def CoversAll (names : List String) : List Template.Node → Prop
  | [] => True
  | n :: ns => Covers names n ∧ CoversAll names ns

end

theorem CoversNode.branch {k : Known} {names : List String} {n : Template.Node}
    (h : k.CoversNode names n) (hn : n.isDsl .ifChain = true) (c : Template.Node)
    (hc : c ∈ n.children) (helse : c.isDsl .elseBranch = false) : k.CoversCondition names c := by
  have hd : n.dsl? = some .ifChain := of_decide_eq_true hn
  unfold CoversNode at h
  rw [hd] at h
  exact h c hc helse

end Known

/-! ## Conditions -/

namespace View

variable {k : Known} {names : List String} {v : View} {s : Scope}

theorem evalPath_congr (hv : Within k.limits names v) (hs : Scope.AgreeOn k.reads v.scope s)
    {path : String} (h : k.CoversPath names path) :
    (v.withScope s).evalPath path = v.evalPath path := by
  have hp : (v.withScope s).pathExpr path = v.pathExpr path := rfl
  unfold evalPath
  rw [hp]
  cases he : v.pathExpr path with
  | error e => rfl
  | ok e => exact (hs.eval (h v hv e he) v.locals).symm

theorem evalExpr_congr (hv : Within k.limits names v) (hs : Scope.AgreeOn k.reads v.scope s)
    {src : String} (h : k.CoversExpr src) : (v.withScope s).evalExpr src = v.evalExpr src := by
  have hp : Expr.parse (v.withScope s).limits src = Expr.parse v.limits src := rfl
  unfold evalExpr
  rw [hp]
  cases he : Expr.parse v.limits src with
  | error e => rfl
  | ok e => exact (hs.eval (h e (hv.limits ▸ he)) v.locals).symm

section Paths

variable (hv : Within k.limits names v) (hs : Scope.AgreeOn k.reads v.scope s)
include hv hs

theorem pathHolds_congr {path : String} (h : k.CoversPath names path) :
    (v.withScope s).pathHolds path = v.pathHolds path := by
  unfold pathHolds
  rw [evalPath_congr hv hs h]

theorem pathCompares_congr (n : Template.Node) {path : String} (h : k.CoversPath names path) :
    (v.withScope s).pathCompares n path = v.pathCompares n path := by
  unfold pathCompares
  rw [evalPath_congr hv hs h]

theorem allHold_congr {paths : List String} (h : ∀ path ∈ paths, k.CoversPath names path) :
    (v.withScope s).allHold paths = v.allHold paths := by
  induction paths with
  | nil => rfl
  | cons path paths ih =>
    rw [allHold, allHold, pathHolds_congr hv hs (h path (by simp)),
      ih fun path hm => h path (List.mem_cons_of_mem _ hm)]

theorem anyHolds_congr {paths : List String} (h : ∀ path ∈ paths, k.CoversPath names path) :
    (v.withScope s).anyHolds paths = v.anyHolds paths := by
  induction paths with
  | nil => rfl
  | cons path paths ih =>
    rw [anyHolds, anyHolds, pathHolds_congr hv hs (h path (by simp)),
      ih fun path hm => h path (List.mem_cons_of_mem _ hm)]

end Paths

/-- A part of a condition counts only with the text of its attribute. -/
theorem part_congr {n : Template.Node} {attr : String} {f g : String → Except EvalError Bool}
    (h : ∀ text, n.attr? attr = some text → f text = g text) : part n attr f = part n attr g := by
  unfold part
  split
  · rename_i text ht
    exact h text ht
  · rfl

theorem holds_congr (hv : Within k.limits names v) (hs : Scope.AgreeOn k.reads v.scope s)
    {n : Template.Node} (h : k.CoversCondition names n) : (v.withScope s).holds n = v.holds n := by
  obtain ⟨hcondition, hvar, hand, hor, hnot⟩ := h
  have h1 : part n "condition" (v.withScope s).exprHolds = part n "condition" v.exprHolds :=
    part_congr fun src ht => by unfold exprHolds; rw [evalExpr_congr hv hs (hcondition src ht)]
  have h2 : part n "var" ((v.withScope s).pathCompares n) = part n "var" (v.pathCompares n) :=
    part_congr fun path ht => pathCompares_congr hv hs n (hvar path ht)
  have h3 : part n "and" (fun paths => (v.withScope s).allHold (splitPaths paths)) =
      part n "and" fun paths => v.allHold (splitPaths paths) :=
    part_congr fun paths ht => allHold_congr hv hs (hand paths ht)
  have h4 : part n "or" (fun paths => (v.withScope s).anyHolds (splitPaths paths)) =
      part n "or" fun paths => v.anyHolds (splitPaths paths) :=
    part_congr fun paths ht => anyHolds_congr hv hs (hor paths ht)
  have h5 : part n "not" (fun path => do return !(← (v.withScope s).pathHolds path)) =
      part n "not" fun path => do return !(← v.pathHolds path) :=
    part_congr fun path ht => by rw [pathHolds_congr hv hs (hnot path ht)]
  unfold holds
  rw [h1, h2, h3, h4, h5]

end View

/-! ## What the parts of a page draw -/

section Draw

open View (Within)

variable {k : Known} {names : List String} {v : View} {s : Scope} {n : Template.Node}
variable (hv : Within k.limits names v) (hs : Scope.AgreeOn k.reads v.scope s)
include hv hs

theorem condition_congr (h : k.CoversCondition names n) :
    condition (v.withScope s) n = condition v n := by
  unfold condition
  rw [View.holds_congr hv hs h]

theorem showVar_congr (h : ∀ path, n.attr? "var" = some path → k.CoversPath names path) :
    showVar (v.withScope s) n = showVar v n := by
  unfold showVar
  split
  · rfl
  · rename_i path hpath
    rw [View.evalPath_congr hv hs (h path hpath)]

theorem switchValue_congr (hn : n.dsl? = some .switch) (h : k.CoversNode names n) :
    switchValue (v.withScope s) n = switchValue v n := by
  unfold Known.CoversNode at h
  rw [hn] at h
  unfold switchValue
  cases hvar : n.attr? "var" with
  | some path =>
    rw [hvar] at h
    dsimp only
    rw [View.evalPath_congr hv hs h]
  | none =>
    cases hvalue : n.attr? "value" with
    | some src =>
      rw [hvar, hvalue] at h
      dsimp only
      rw [View.evalExpr_congr hv hs h]
    | none => rfl

theorem loopItems_congr {path : String} (h : k.CoversPath names path) :
    loopItems (v.withScope s) n path = loopItems v n path := by
  unfold loopItems
  rw [View.evalPath_congr hv hs h]

omit hv in
theorem field_congr (checkbox : Bool) (h : ∀ var, n.attr? "var" = some var → var ∈ k.reads) :
    field (v.withScope s) n checkbox = field v n checkbox := by
  unfold field
  split
  · rfl
  · rename_i var hvar
    have hl : (v.withScope s).scope.lookup var = v.scope.lookup var :=
      (hs.lookup var (h var hvar)).symm
    rw [hl]
    rfl

omit hv in
theorem residentNode_congr (r : Renderer) (t : ResidentTag) (attributes : Dict String) :
    residentNode r (v.withScope s) t attributes = residentNode r v t attributes := by
  have hr : (v.withScope s).scope.resident = v.scope.resident := hs.resident.symm
  unfold residentNode
  rw [hr]

end Draw

/-! ## Loops -/

/-- The items of the rounds of a loop, with their places. -/
def roundItems (r : Renderer) (v : View) (n : Template.Node) : Draw (List (Value × Nat)) :=
  match n.attr? "var" with
  | none => pure []
  | some path => do
    let items ← loopItems v n path
    let most := r.maxLoopIterations
    if most < items.length then
      warn n (.cut most items.length)
    return (items.take most).zipIdx

theorem rounds_eq (r : Renderer) (v : View) (n : Template.Node) :
    rounds r v n =
      (roundItems r v n) >>= fun items => pure (items.map fun x => v.bindItem n x.1 x.2) := by
  unfold rounds roundItems
  cases n.attr? "var" with
  | none => rfl
  | some path =>
    simp only [bind_assoc]
    refine congrArg _ (funext fun items => ?_)
    split
    · simp
    · simp

/-- A loop draws its body once for each item. -/
theorem rounds_mapM (r : Renderer) (v : View) (n : Template.Node)
    (body : View → Draw (List Node)) :
    (do return (← (← rounds r v n).mapM body).flatten) =
      (do return (← (← roundItems r v n).mapM fun x => body (v.bindItem n x.1 x.2)).flatten) := by
  rw [rounds_eq]
  simp only [bind_assoc, pure_bind, List.mapM_map]
  rfl

theorem roundItems_congr {k : Known} {names : List String} {v : View} {s : Scope}
    {n : Template.Node} (r : Renderer) (hv : View.Within k.limits names v)
    (hs : Scope.AgreeOn k.reads v.scope s)
    (h : ∀ path, n.attr? "var" = some path → k.CoversPath names path) :
    roundItems r (v.withScope s) n = roundItems r v n := by
  unfold roundItems
  split
  · rfl
  · rename_i path hpath
    rw [loopItems_congr hv hs (h path hpath)]

/-- A round of a loop binds the names of the loop and no others. -/
theorem View.Within.bindItem {limits : EvalLimits} {names : List String} {v : View}
    (h : Within limits names v) {n : Template.Node} (hn : n.isDsl .forEach = true) (item : Value)
    (index : Nat) : Within limits (names ++ n.loopNames) (v.bindItem n item index) where
  limits := h.limits
  names name hname := by
    have hloop : n.loopNames =
        [(n.attr? "item").getD "item", (n.attr? "index").getD "index"] := by
      rw [Template.Node.loopNames, if_pos hn]
    rw [hloop]
    simp only [View.bindItem, Locals.get?_cons, Dict.get?_insert, Dict.get?_nil,
      Option.isSome_or, Bool.or_eq_true] at hname
    rcases hname with hbound | houter
    · by_cases h1 : (n.attr? "index").getD "index" = name
      · simp [h1]
      · by_cases h2 : (n.attr? "item").getD "item" = name
        · simp [h2]
        · simp [h1, h2] at hbound
    · exact List.mem_append_left _ (h.names name houter)

/-! ## Trees -/

theorem View.Within.append {limits : EvalLimits} {names : List String} {v : View}
    (h : Within limits names v) (more : List String) : Within limits (names ++ more) v where
  limits := h.limits
  names name hn := List.mem_append_left _ (h.names name hn)

/-- What the rendering of a node puts into its place, be it the root of an island or not. -/
def body (r : Renderer) (inner : Bool) (v : View) (n : Template.Node) : Draw (List Node) :=
  match n.tag with
  | .fragment => nodes r inner v n.children
  | .text content => pure [.text content]
  | .html name => do return [.element name n.attributes (← nodes r inner v n.children)]
  | .dsl .showVar => showVar v n
  | .dsl .ifChain => firstBranch r inner v n.children
  | .dsl .switch => do firstWhere r inner v (chosen (← switchValue v n) n.children) n.children
  | .dsl .forEach => do
    return (← (← rounds r v n).mapM fun v => nodes r inner v n.children).flatten
  | .dsl .button => do
    let attributes ← buttonAttributes v n
    return [.element "button" attributes (← nodes r inner v n.children)]
  | .dsl .textInput => field v n false
  | .dsl .checkbox => field v n true
  | .dsl (.event .onMount) | .dsl (.event .onInterval) => lifecycle v n.bindings
  | .dsl (.resident t) => pure [residentNode r v t n.attributes]
  | .dsl _ => pure []

theorem node_eq (r : Renderer) (inside : Bool) (v : View) (n : Template.Node) :
    node r inside v n =
      enclose n.island inside n.tag.name (body r (inside || n.island.isSome) v n) := by
  obtain ⟨tag, attributes, children, span, bindings, island⟩ := n
  cases tag with
  | dsl t => cases t <;> rfl
  | _ => rfl

theorem lifecycle_congr (v : View) (s : Scope) (bs : List EventBinding) :
    lifecycle (v.withScope s) bs = lifecycle v bs := by
  induction bs with
  | nil => rfl
  | cons b bs ih =>
    simp only [lifecycle, ih]
    rfl

variable {k : Known}

section Body

variable {names : List String} {v : View} {s : Scope} {n : Template.Node}

/-- A node is drawn alike if what is below it is. -/
theorem body_congr (r : Renderer) (inner : Bool) (hv : View.Within k.limits names v)
    (hs : Scope.AgreeOn k.reads v.scope s) (hn : k.CoversNode names n)
    (hnodes : ∀ v : View, View.Within k.limits (names ++ n.loopNames) v →
      Scope.AgreeOn k.reads v.scope s →
        nodes r inner (v.withScope s) n.children = nodes r inner v n.children)
    (hbranch : n.isDsl .ifChain = true →
      firstBranch r inner (v.withScope s) n.children = firstBranch r inner v n.children)
    (hwhere : ∀ p, firstWhere r inner (v.withScope s) p n.children =
      firstWhere r inner v p n.children) :
    body r inner (v.withScope s) n = body r inner v n := by
  have hhere := hnodes v (hv.append _) hs
  obtain ⟨tag, attributes, children, span, bindings, island⟩ := n
  cases tag with
  | fragment => exact hhere
  | text content => rfl
  | html name => simp only [body, hhere]
  | dsl t =>
    cases t with
    | showVar => exact showVar_congr hv hs hn
    | ifChain => exact hbranch rfl
    | switch => simp only [body, switchValue_congr hv hs rfl hn, hwhere]
    | forEach =>
      simp only [body, rounds_mapM, roundItems_congr r hv hs hn]
      refine congrArg _ (funext fun items => ?_)
      have hround : ∀ x : Value × Nat, nodes r inner ((v.withScope s).bindItem _ x.1 x.2) children =
          nodes r inner (v.bindItem _ x.1 x.2) children := fun x =>
        hnodes _ (hv.bindItem rfl x.1 x.2) hs
      simp only [hround]
    | button =>
      simp only [body, hhere]
      rfl
    | textInput => exact field_congr hs false hn
    | checkbox => exact field_congr hs true hn
    | event e =>
      cases e with
      | onMount | onInterval => exact lifecycle_congr v s bindings
      | onClick | onChange => rfl
    | resident t => simp only [body, residentNode_congr hs]
    | _ => rfl

end Body

mutual

/-- A covered node looks the same in all scopes that agree on what it is said to read. -/
theorem node_congr (r : Renderer) (inside : Bool) {names : List String} {v : View} {s : Scope}
    (hv : View.Within k.limits names v) (hs : Scope.AgreeOn k.reads v.scope s) :
    (n : Template.Node) → k.Covers names n →
      node r inside (v.withScope s) n = node r inside v n
  | ⟨tag, attributes, children, span, bindings, island⟩, ⟨hnode, hchildren⟩ => by
    rw [node_eq, node_eq]
    refine congrArg (enclose island inside tag.name) (body_congr r _ hv hs hnode ?_ ?_ ?_)
    · exact fun v hv hs => nodes_congr r _ hv hs children hchildren
    · intro hchain
      refine firstBranch_congr r _ (hv.append _) hs children hchildren fun c hc helse => ?_
      exact condition_congr hv hs (hnode.branch hchain c hc helse)
    · exact fun p => firstWhere_congr r _ (hv.append _) hs p children hchildren

theorem nodes_congr (r : Renderer) (inside : Bool) {names : List String} {v : View} {s : Scope}
    (hv : View.Within k.limits names v) (hs : Scope.AgreeOn k.reads v.scope s) :
    (ns : List Template.Node) → k.CoversAll names ns →
      nodes r inside (v.withScope s) ns = nodes r inside v ns
  | [], _ => rfl
  | n :: ns, h => by
    rw [nodes, nodes, node_congr r inside hv hs n h.1, nodes_congr r inside hv hs ns h.2]

theorem firstBranch_congr (r : Renderer) (inside : Bool) {names : List String} {v : View}
    {s : Scope} (hv : View.Within k.limits names v) (hs : Scope.AgreeOn k.reads v.scope s) :
    (ns : List Template.Node) → k.CoversAll names ns →
      (∀ c ∈ ns, c.isDsl .elseBranch = false → condition (v.withScope s) c = condition v c) →
      firstBranch r inside (v.withScope s) ns = firstBranch r inside v ns
  | [], _, _ => rfl
  | ⟨tag, attributes, children, span, bindings, island⟩ :: rest, h, hc => by
    have hfirst := nodes_congr r inside (hv.append _) hs children h.1.2
    have hrest := firstBranch_congr r inside hv hs rest h.2
      fun c hm => hc c (List.mem_cons_of_mem _ hm)
    unfold firstBranch
    rw [hfirst, hrest]
    dsimp only
    split
    · rfl
    · rename_i helse
      rw [hc _ List.mem_cons_self (by simpa using helse)]

theorem firstWhere_congr (r : Renderer) (inside : Bool) {names : List String} {v : View}
    {s : Scope} (hv : View.Within k.limits names v) (hs : Scope.AgreeOn k.reads v.scope s)
    (p : Template.Node → Bool) :
    (ns : List Template.Node) → k.CoversAll names ns →
      firstWhere r inside (v.withScope s) p ns = firstWhere r inside v p ns
  | [], _ => rfl
  | ⟨tag, attributes, children, span, bindings, island⟩ :: rest, h => by
    unfold firstWhere
    rw [nodes_congr r inside (hv.append _) hs children h.1.2,
      firstWhere_congr r inside hv hs p rest h.2]

end

end Page

end Archipelago
