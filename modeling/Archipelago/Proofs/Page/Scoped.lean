import Archipelago.Proofs.Compile.Checked
import Archipelago.Proofs.Expr.Failures
import Archipelago.Proofs.Page.Visits

/-!
# Renderings of checked trees

A checked tree is rendered without avoidable errors: its texts can be read, and their names stand
for something at each place that the rendering comes to. The handlers that it makes are checked as
well, where the bindings that they take with them are in force.
-/

namespace Archipelago

open Page (Fails Handler Makes View Visits)
open Template (splitPaths)

/-! ## Bindings -/

theorem Dict.isSome_get?_merge {α : Type} (d e : Dict α) (name : String) :
    (get? (merge d e) name).isSome = ((get? d name).isSome || (get? e name).isSome) := by
  unfold merge
  induction e generalizing d with
  | nil => simp
  | cons x e ih =>
    obtain ⟨key, value⟩ := x
    rw [List.foldl_cons, ih, get?_insert]
    by_cases h : key = name
    · simp [get?, h]
    · simp [get?, h]

/-- The bindings that a handler takes with it are those around it. -/
theorem Locals.isSome_get?_flatten (l : Locals) (name : String) :
    (Dict.get? l.flatten name).isSome = (l.get? name).isSome := by
  induction l with
  | nil => rfl
  | cons frame outer ih =>
    rw [flatten, Dict.isSome_get?_merge, ih, Locals.get?_cons, Option.isSome_or, Bool.or_comm]

/-- A view under these limits that binds these names and no others. -/
structure Page.View.Binds (limits : EvalLimits) (inner : List String) (v : View) : Prop
    extends View.Within limits inner v where
  bound : ∀ name ∈ inner, (v.locals.get? name).isSome = true

theorem Page.View.Binds.bindItem {limits : EvalLimits} {names : List String} {v : View}
    (h : View.Binds limits names v) {n : Template.Node} (hn : n.isDsl .forEach = true)
    (item : Value)
    (index : Nat) : View.Binds limits (names ++ n.loopNames) (v.bindItem n item index) where
  toWithin := h.toWithin.bindItem hn item index
  bound name hname := by
    have hloop : n.loopNames =
        [(n.attr? "item").getD "item", (n.attr? "index").getD "index"] := by
      rw [Template.Node.loopNames, if_pos hn]
    rw [hloop] at hname
    simp only [View.bindItem, Locals.get?_cons, Dict.get?_insert, Dict.get?_nil,
      Option.isSome_or, Bool.or_eq_true]
    rcases List.mem_append.1 hname with houter | hnew
    · exact .inr (h.bound name houter)
    · refine .inl ?_
      by_cases h1 : (n.attr? "index").getD "index" = name
      · simp [h1]
      · have h2 : (n.attr? "item").getD "item" = name := by
          simpa [Ne.symm h1, eq_comm] using hnew
        simp [h1, h2]

namespace Scoping

variable {sc : Scoping} {missing : String → Prop}

/-- All known variables have values, but perhaps those that are missing. -/
def Serves (sc : Scoping) (missing : String → Prop) (scope : Scope) : Prop :=
  ∀ name, sc.known name → (scope.lookup name).isSome = true ∨ missing name

theorem Closed.resolves {names bare : List String} {e : Expr} (h : sc.Closed names bare e)
    {scope : Scope} (hs : sc.Serves missing scope) {l : Locals}
    (hnames : ∀ name ∈ names, (l.get? name).isSome = true)
    (hbare : ∀ name ∈ bare, (l.get? name).isSome = true) : e.Resolves missing scope l where
  vars name hn := (h.vars name hn).elim (fun hname => .inl (hnames name hname))
    fun hknown => .inr (hs name hknown)
  bindings name hn := (h.bindings name hn).elim (hnames name) (hbare name)

end Scoping

/-! ## Conditions -/

namespace Page.View

variable {sc : Scoping} {missing : String → Prop} {names : List String} {v : View}

section

variable (hv : View.Binds sc.limits names v) (hs : sc.Serves missing v.scope)
include hv hs

theorem evalExpr_fails {src : String} (h : sc.CheckedExpr names src) :
    FailsByValue missing (v.evalExpr src) := by
  obtain ⟨e, he, hclosed⟩ := h
  unfold evalExpr
  rw [hv.limits, he]
  exact Expr.eval_fails e (hclosed.resolves hs hv.bound (List.forall_mem_nil _))

/-- A path fails for its values only, from a binding and from a variable alike. -/
theorem evalPath_fails (hnames : ∀ name ∈ names, Compile.isIdentifier name = true) {path : String}
    (h : sc.CheckedPath names path) : FailsByValue missing (v.evalPath path) := by
  obtain ⟨e, he, hclosed⟩ := h
  have hresolves := hclosed.resolves hs hv.bound (List.forall_mem_nil _)
  unfold evalPath pathExpr
  dsimp only
  rw [hv.limits]
  split
  · rename_i hlocal
    have hroot := hnames _ (hv.names _ hlocal)
    obtain ⟨e', he', hrerooted⟩ := Expr.exists_parse_of_parsePath hroot he
    rw [he']
    refine Expr.eval_fails e' ⟨fun name hn => hresolves.vars name (hrerooted.readsVar hn), ?_⟩
    intro name hn
    rcases hrerooted.readsBinding hn with rfl | hn
    · exact hlocal
    · exact hresolves.bindings name hn
  · rw [Expr.parsePath_trim, he]
    exact Expr.eval_fails e hresolves

end

theorem part_fails {n : Template.Node} {attr : String} {f : String → Except EvalError Bool}
    (h : ∀ text, n.attr? attr = some text → FailsByValue missing (f text)) :
    FailsByValue missing (part n attr f) := by
  unfold part
  split
  · rename_i text htext
    exact h text htext
  · exact True.intro

theorem comparison_fails (c : Template.Comparison) (value operand : Value) :
    FailsByValue missing (c.holds value operand) := by
  unfold Template.Comparison.holds
  split
  · exact True.intro
  · exact True.intro
  · exact (Value.order_fails _ _).map
  · exact (Value.order_fails _ _).map
  · exact (Value.order_fails _ _).map
  · exact (Value.order_fails _ _).map
  · split
    · exact True.intro
    · exact True.intro
    · exact True.intro

section

variable (hv : View.Binds sc.limits names v) (hs : sc.Serves missing v.scope)
  (hnames : ∀ name ∈ names, Compile.isIdentifier name = true)
include hv hs hnames

theorem pathHolds_fails {path : String} (h : sc.CheckedPath names path) :
    FailsByValue missing (v.pathHolds path) :=
  (evalPath_fails hv hs hnames h).bind fun _ _ => True.intro

theorem pathCompares_fails (n : Template.Node) {path : String} (h : sc.CheckedPath names path) :
    FailsByValue missing (v.pathCompares n path) := by
  refine (evalPath_fails hv hs hnames h).bind fun value _ => ?_
  split
  · exact comparison_fails _ _ _
  · exact True.intro

theorem allHold_fails {paths : List String} (h : ∀ path ∈ paths, sc.CheckedPath names path) :
    FailsByValue missing (v.allHold paths) := by
  induction paths with
  | nil => exact True.intro
  | cons path paths ih =>
    refine (pathHolds_fails hv hs hnames (h path List.mem_cons_self)).bind fun b _ => ?_
    split
    · exact ih fun path hp => h path (List.mem_cons_of_mem _ hp)
    · exact True.intro

theorem anyHolds_fails {paths : List String} (h : ∀ path ∈ paths, sc.CheckedPath names path) :
    FailsByValue missing (v.anyHolds paths) := by
  induction paths with
  | nil => exact True.intro
  | cons path paths ih =>
    refine (pathHolds_fails hv hs hnames (h path List.mem_cons_self)).bind fun b _ => ?_
    split
    · exact True.intro
    · exact ih fun path hp => h path (List.mem_cons_of_mem _ hp)

theorem holds_fails {n : Template.Node} (h : sc.CheckedCondition names n) :
    FailsByValue missing (v.holds n) := by
  obtain ⟨hcondition, hvar, hand, hor, hnot⟩ := h
  have h1 : FailsByValue missing (part n "condition" v.exprHolds) := part_fails fun src hsrc =>
    (evalExpr_fails hv hs (hcondition src hsrc)).bind fun _ _ => True.intro
  have h2 : FailsByValue missing (part n "var" (v.pathCompares n)) := part_fails fun path hpath =>
    pathCompares_fails hv hs hnames n (hvar path hpath)
  have h3 : FailsByValue missing (part n "and" fun paths => v.allHold (splitPaths paths)) :=
    part_fails fun paths hpaths => allHold_fails hv hs hnames (hand paths hpaths)
  have h4 : FailsByValue missing (part n "or" fun paths => v.anyHolds (splitPaths paths)) :=
    part_fails fun paths hpaths => anyHolds_fails hv hs hnames (hor paths hpaths)
  have h5 : FailsByValue missing (part n "not" fun path => do return !(← v.pathHolds path)) :=
    part_fails fun path hpath =>
      (pathHolds_fails hv hs hnames (hnot path hpath)).bind fun _ _ => True.intro
  unfold holds
  refine h1.bind fun b _ => ?_
  split
  · exact True.intro
  · refine h2.bind fun b _ => ?_
    split
    · exact True.intro
    · refine h3.bind fun b _ => ?_
      split
      · exact True.intro
      · refine h4.bind fun b _ => ?_
        split
        · exact True.intro
        · exact h5

end

end Page.View

/-! ## Nodes on the way -/

namespace Scoping

variable {sc : Scoping} {missing : String → Prop} {names : List String} {v : View}
  {n : Template.Node}

/-- A node that is checked where the view binds its names. -/
structure Placed (sc : Scoping) (scope : Scope) (v : View) (n : Template.Node) : Prop where
  scope : v.scope = scope
  checked : ∃ names, View.Binds sc.limits names v ∧
    (∀ name ∈ names, Compile.isIdentifier name = true) ∧ sc.Checked names n

theorem loopNames_of_not_forEach (h : n.isDsl .forEach = false) : n.loopNames = [] :=
  if_neg (by rw [h]; exact Bool.false_ne_true)

theorem checked_child {c : Template.Node} (h : sc.Checked names n)
    (hd : n.isDsl .forEach = false) (hc : c ∈ n.children) : sc.Checked names c := by
  have hall := ((checked_iff _ _).1 h).2
  rw [loopNames_of_not_forEach hd, List.append_nil] at hall
  exact (checkedAll_iff _ _).1 hall c hc

/-- A rendering that starts at a checked node comes to checked nodes only. -/
theorem Placed.visits {scope : Scope} {v₀ : View} {root : Template.Node}
    (h₀ : sc.Placed scope v₀ root) (h : Visits v₀ root v n) : sc.Placed scope v n := by
  induction h with
  | root => exact h₀
  | child _ hd hc ih =>
    obtain ⟨hscope, names, hbinds, hnames, hn⟩ := ih
    exact ⟨hscope, names, hbinds, hnames, checked_child hn hd hc⟩
  | @branch v n c g _ hd hc hg ih =>
    obtain ⟨hscope, names, hbinds, hnames, hn⟩ := ih
    have hchain := ((checked_iff _ _).1 hn).1.attributes
    unfold CheckedAttributes at hchain
    rw [show n.dsl? = some .ifChain from of_decide_eq_true hd] at hchain
    have hbranch := checked_child hn (Template.Node.isDsl_of_ne hd (by decide)) hc
    have hloop := Template.Node.not_forEach_of_isBranch (hchain c hc).1
    exact ⟨hscope, names, hbinds, hnames, checked_child hbranch hloop hg⟩
  | @round v n c item index _ hd hc ih =>
    obtain ⟨hscope, names, hbinds, hnames, hn⟩ := ih
    obtain ⟨hnode, hchildren⟩ := (checked_iff _ _).1 hn
    refine ⟨hscope, _, hbinds.bindItem hd item index, fun name hname => ?_,
      (checkedAll_iff _ _).1 hchildren c hc⟩
    rcases List.mem_append.1 hname with hname | hname
    · exact hnames name hname
    · have hloop := hnode.attributes
      unfold CheckedAttributes at hloop
      rw [show n.dsl? = some .forEach from of_decide_eq_true hd] at hloop
      exact hloop.2 name hname

/-- What fails at a checked node fails for its values only. -/
theorem Placed.fails {scope : Scope} (h : sc.Placed scope v n) (hs : sc.Serves missing scope)
    {e : EvalError} (he : Fails v n e) : e.Excused missing := by
  obtain ⟨rfl, names, hbinds, hnames, hn⟩ := h
  have ha := ((checked_iff _ _).1 hn).1.attributes
  unfold Fails at he
  unfold CheckedAttributes at ha
  split at he
  · rename_i hd
    rw [hd] at ha
    obtain ⟨path, hpath, he⟩ := he
    exact (View.evalPath_fails hbinds hs hnames (ha path hpath)).error he
  · rename_i hd
    rw [hd] at ha
    obtain ⟨path, hpath, he⟩ := he
    exact (View.evalPath_fails hbinds hs hnames (ha.1 path hpath)).error he
  · rename_i hd
    rw [hd] at ha
    dsimp only at ha
    split at he
    · rename_i hvar
      rw [hvar] at ha
      exact (View.evalPath_fails hbinds hs hnames ha).error he
    · rename_i hvar hvalue
      rw [hvar, hvalue] at ha
      exact (View.evalExpr_fails hbinds hs ha).error he
    · cases he
  · rename_i hd
    rw [hd] at ha
    obtain ⟨c, hc, helse, he⟩ := he
    exact (View.holds_fails hbinds hs hnames ((ha c hc).2 helse)).error he
  · cases he

/-! ## Handlers -/

/-- The steps are checked for bindings like these. -/
def CheckedUnder (sc : Scoping) (locals : Dict Value) (as : List Action) : Prop :=
  ∃ names, (∀ name ∈ names, (Dict.get? locals name).isSome = true) ∧ sc.CheckedSteps names as

/-- The steps of a handler are checked for its bindings, and the variable of its field is known. -/
structure CheckedHandler (sc : Scoping) (h : Handler) : Prop where
  steps : sc.CheckedUnder h.locals h.actions
  input : ∀ b, h.input = some b → sc.known b.var

theorem Placed.makes {scope : Scope} (hplaced : sc.Placed scope v n) {h : Handler}
    (hm : Makes v n h) : sc.CheckedHandler h := by
  obtain ⟨-, names, hbinds, -, hn⟩ := hplaced
  obtain ⟨ha, hb⟩ := ((checked_iff _ _).1 hn).1
  have hlocals : ∀ name ∈ names, (Dict.get? v.locals.flatten name).isSome = true := by
    intro name hname
    rw [Locals.isSome_get?_flatten]
    exact hbinds.bound name hname
  have hactions : sc.CheckedSteps names (Page.bindingActions n) := by
    refine (checkedSteps_iff _ _).2 fun a hmem => ?_
    obtain ⟨b, hbmem, hamem⟩ := List.mem_flatMap.1 hmem
    exact (checkedSteps_iff _ _).1 (hb b hbmem) a hamem
  unfold CheckedAttributes at ha
  unfold Makes at hm
  split at hm
  · rw [hm]
    exact ⟨⟨names, hlocals, hactions⟩, fun b hb => by cases hb⟩
  · rename_i hd
    rw [hd] at ha
    obtain ⟨var, checkbox, hvar, rfl⟩ := hm
    refine ⟨⟨names, hlocals, hactions⟩, fun b hb => ?_⟩
    obtain rfl := Option.some.inj hb
    exact ha var hvar
  · rename_i hd
    rw [hd] at ha
    obtain ⟨var, checkbox, hvar, rfl⟩ := hm
    refine ⟨⟨names, hlocals, hactions⟩, fun b hb => ?_⟩
    obtain rfl := Option.some.inj hb
    exact ha var hvar
  · obtain ⟨b, hbmem, rfl⟩ := hm
    exact ⟨⟨names, hlocals, hb b hbmem⟩, fun b hb => by cases hb⟩
  · obtain ⟨b, hbmem, rfl⟩ := hm
    exact ⟨⟨names, hlocals, hb b hbmem⟩, fun b hb => by cases hb⟩
  · cases hm

/-- A checked tree is drawn without avoidable errors, and with checked handlers only. -/
theorem Checked.draw_only {root : Template.Node} (h : sc.Checked [] root) (r : Page.Renderer)
    (hr : r.eval = sc.limits) (inside : Bool) {scope : Scope} (hs : sc.Serves missing scope) :
    (r.draw inside scope root).2.Only sc.CheckedHandler (EvalError.Excused missing) := by
  have hroot : sc.Placed scope { limits := r.eval, scope } root :=
    ⟨rfl, [], ⟨⟨hr, fun name hn => by cases hn⟩, List.forall_mem_nil _⟩, List.forall_mem_nil _, h⟩
  refine (r.draw_only inside scope root).mono ?_ ?_
  · rintro h ⟨v, n, hvisits, hm⟩
    exact (hroot.visits hvisits).makes hm
  · rintro e ⟨v, n, hvisits, he⟩
    exact (hroot.visits hvisits).fails hs he

end Scoping

end Archipelago
