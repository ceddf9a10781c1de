import Archipelago.Proofs.Compile.Checked
import Archipelago.Session.Hydrate

/-!
# A checked tree reads what it is said to read

The reads of a tree are found under the default limits, from the texts of its attributes. Within
limits that are no wider a rendering reads nothing else, since a text that can be read is read as
the same expression, and a path from a binding reads no more than it does below the variables. Only
fields are not read by way of an expression.
-/

namespace Archipelago

open Compile (isIdentifier)

namespace Template

theorem exprReads_of_parse {limits : EvalLimits} (hl : limits.Le {}) {src : String} {e : Expr}
    (h : Expr.parse limits src = .ok e) : exprReads src = e.dependencies := by
  unfold exprReads
  rw [Expr.parse_mono hl h]

theorem pathReads_of_parsePath {limits : EvalLimits} (hl : limits.Le {}) {path : String} {e : Expr}
    (h : Expr.parsePath limits path = .ok e) : pathReads path = e.dependencies := by
  unfold pathReads
  rw [Expr.parsePath_mono hl h]

/-- The name of a variable reads that variable, unless it is too long for the default limits. -/
theorem mem_pathReads_self {name : String} (hname : isIdentifier name = true) :
    name ∈ pathReads name ↔ name.utf8ByteSize ≤ 1018 := by
  constructor
  · intro hread
    unfold pathReads at hread
    split at hread
    · rename_i e he
      have hsize := Expr.size_of_parsePath_name hname he
      exact Nat.le_of_add_le_add_right hsize
    · cases hread
  · intro hsize
    unfold pathReads
    rw [Expr.parsePath_name hname (Nat.add_le_add_right hsize 6) (by decide)]
    exact Expr.mem_dependencies.2 (Expr.readsVar_var.2 rfl)

end Template

open Page (Known View)
open Template (Node exprReads exprReads_of_parse pathReads pathReads_of_parsePath splitPaths)

section

variable {sc : Scoping} {limits : EvalLimits} {names : List String} {k : Known}

/-- A path reads the same variables wherever it is read from. -/
theorem Scoping.CheckedPath.reads (hsc : sc.limits.Le {}) (hl : limits.Le {}) {path : String}
    (h : sc.CheckedPath names path) (hnames : ∀ name ∈ names, isIdentifier name = true) {v : View}
    (hv : View.Within limits names v) {e : Expr} (he : v.pathExpr path = .ok e) :
    ∀ dep ∈ e.dependencies, dep ∈ pathReads path := by
  obtain ⟨e', he', -⟩ := h
  have hchecked := Expr.parsePath_mono hsc he'
  rw [pathReads_of_parsePath hsc he']
  unfold View.pathExpr at he
  dsimp only at he
  rw [hv.limits] at he
  split at he
  · rename_i hlocal
    have hroot := hnames _ (hv.names _ hlocal)
    exact fun dep hdep => (Expr.rerooted_of_parse hl hroot he hchecked).readsVar hdep
  · rw [Expr.parsePath_trim] at he
    obtain rfl := Except.ok.inj ((Expr.parsePath_mono hl he).symm.trans hchecked)
    exact fun dep hdep => hdep

theorem coversPath (hsc : sc.limits.Le {}) (hl : k.limits.Le {}) {path : String}
    (h : sc.CheckedPath names path) (hnames : ∀ name ∈ names, isIdentifier name = true)
    (hreads : ∀ dep ∈ pathReads path, dep ∈ k.reads) : k.CoversPath names path :=
  fun _ hv _ he dep hdep => hreads dep (h.reads hsc hl hnames hv he dep hdep)

theorem coversExpr (hl : k.limits.Le {}) {src : String}
    (hreads : ∀ dep ∈ exprReads src, dep ∈ k.reads) : k.CoversExpr src := by
  intro e he dep hdep
  rw [exprReads_of_parse hl he] at hreads
  exact hreads dep hdep

/-! ## Nodes -/

theorem coversCondition (hsc : sc.limits.Le {}) (hl : k.limits.Le {}) {n : Node}
    (h : sc.CheckedCondition names n) (hnames : ∀ name ∈ names, isIdentifier name = true)
    (hreads : ∀ dep ∈ n.conditionReads, dep ∈ k.reads) : k.CoversCondition names n := by
  obtain ⟨-, hvar, hand, hor, hnot⟩ := h
  unfold Node.conditionReads at hreads
  simp only [List.mem_append, or_imp, forall_and] at hreads
  obtain ⟨⟨⟨⟨hcond', hvar'⟩, hnot'⟩, hand'⟩, hor'⟩ := hreads
  refine ⟨fun src hs => ?_, fun path hp => ?_, fun paths hps path hp => ?_,
    fun paths hps path hp => ?_, fun path hp => ?_⟩
  · rw [hs, Option.map_some, Option.getD_some] at hcond'
    exact coversExpr hl hcond'
  · rw [hp, Option.map_some, Option.getD_some] at hvar'
    exact coversPath hsc hl (hvar path hp) hnames hvar'
  · rw [hps, Option.map_some, Option.getD_some] at hand'
    exact coversPath hsc hl (hand paths hps path hp) hnames fun dep hdep =>
      hand' dep (List.mem_flatMap.2 ⟨path, hp, hdep⟩)
  · rw [hps, Option.map_some, Option.getD_some] at hor'
    exact coversPath hsc hl (hor paths hps path hp) hnames fun dep hdep =>
      hor' dep (List.mem_flatMap.2 ⟨path, hp, hdep⟩)
  · rw [hp, Option.map_some, Option.getD_some] at hnot'
    exact coversPath hsc hl (hnot path hp) hnames hnot'

/-- What a node reads, and the variables of fields, are enough for the node itself. -/
theorem coversNode (hsc : sc.limits.Le {}) (hl : k.limits.Le {}) {n : Node}
    (h : sc.CheckedNode names n) (hnames : ∀ name ∈ names, isIdentifier name = true)
    (hreads : ∀ dep ∈ n.reads, dep ∈ k.reads)
    (hfield : ∀ var, n.inputVar? = some var → var ∈ k.reads) : k.CoversNode names n := by
  have ha := h.attributes
  unfold Known.CoversNode
  unfold Scoping.CheckedAttributes at ha
  unfold Node.reads at hreads
  unfold Node.inputVar? at hfield
  cases hd : n.dsl? with
  | none => exact True.intro
  | some t =>
    rw [hd] at ha hreads hfield
    cases t
    case showVar =>
      intro path hp
      dsimp only at hreads
      rw [hp, Option.map_some, Option.getD_some] at hreads
      exact coversPath hsc hl (ha path hp) hnames hreads
    case forEach =>
      intro path hp
      dsimp only at hreads
      rw [hp, Option.map_some, Option.getD_some] at hreads
      exact coversPath hsc hl (ha.1 path hp) hnames hreads
    case textInput => exact hfield
    case checkbox => exact hfield
    case switch =>
      dsimp only at ha hreads ⊢
      cases hvar : n.attr? "var" with
      | some path =>
        rw [hvar] at ha hreads
        exact coversPath hsc hl ha hnames hreads
      | none =>
        cases hvalue : n.attr? "value" with
        | some src =>
          rw [hvar, hvalue] at hreads
          exact coversExpr hl hreads
        | none => exact True.intro
    case ifChain =>
      intro c hc helse
      exact coversCondition hsc hl ((ha c hc).2 helse) hnames fun dep hdep =>
        hreads dep (List.mem_flatMap.2 ⟨c, hc, hdep⟩)
    all_goals exact True.intro

theorem isIdentifier_loopNames {n : Node} (h : sc.CheckedNode names n) :
    ∀ name ∈ n.loopNames, isIdentifier name = true := by
  unfold Node.loopNames
  split
  · rename_i hn
    have ha := h.attributes
    unfold Scoping.CheckedAttributes at ha
    rw [show n.dsl? = some .forEach from of_decide_eq_true hn] at ha
    have hloop := ha.2
    unfold Node.loopNames at hloop
    rwa [if_pos hn] at hloop
  · exact List.forall_mem_nil _

/-! ## Trees -/

/-- The reads of these nodes, and the variables of their fields, are known. -/
structure ReadsKnown (reads : List String) (ns : List Node) : Prop where
  nodes : ∀ n ∈ ns, ∀ dep ∈ n.reads, dep ∈ reads
  fields : ∀ n ∈ ns, ∀ var, n.inputVar? = some var → var ∈ reads

theorem ReadsKnown.of_subset {reads : List String} {ns ms : List Node} (h : ReadsKnown reads ns)
    (hm : ms ⊆ ns) : ReadsKnown reads ms :=
  ⟨fun n hn => h.nodes n (hm hn), fun n hn => h.fields n (hm hn)⟩

mutual

/-- A checked tree is covered by its reads and the variables of its fields. -/
theorem covers_of_checked (hsc : sc.limits.Le {}) (hl : k.limits.Le {}) (names : List String)
    (hnames : ∀ name ∈ names, isIdentifier name = true) : (n : Node) → sc.Checked names n →
      ReadsKnown k.reads n.walk → k.Covers names n
  | ⟨tag, attributes, children, span, bindings, island⟩, hn, hreads => by
    obtain ⟨hnode, hchildren⟩ := (Scoping.checked_iff _ _).1 hn
    refine ⟨coversNode hsc hl hnode hnames (hreads.nodes _ List.mem_cons_self)
      (hreads.fields _ List.mem_cons_self), ?_⟩
    refine coversAll_of_checked hsc hl _ (fun name hname => ?_) children hchildren
      (hreads.of_subset (List.subset_cons_self _ _))
    exact (List.mem_append.1 hname).elim (hnames name) (isIdentifier_loopNames hnode name)

theorem coversAll_of_checked (hsc : sc.limits.Le {}) (hl : k.limits.Le {}) (names : List String)
    (hnames : ∀ name ∈ names, isIdentifier name = true) : (ns : List Node) →
      sc.CheckedAll names ns → ReadsKnown k.reads (Node.walkAll ns) → k.CoversAll names ns
  | [], _, _ => True.intro
  | n :: ns, hns, hreads =>
    ⟨covers_of_checked hsc hl names hnames n hns.1 (hreads.of_subset (List.subset_append_left _ _)),
      coversAll_of_checked hsc hl names hnames ns hns.2
        (hreads.of_subset (List.subset_append_right _ _))⟩

end

end

end Archipelago
