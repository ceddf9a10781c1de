import Archipelago.Proofs.Action.Trace
import Archipelago.Proofs.Page.Scoped

/-!
# How a run of checked steps fails

Steps that are checked fail without avoidable errors, from any store that has the variables they
are checked against. A batch adds and drops no variable, so a run that goes on still finds all of
them, and so do the steps behind a delay.
-/

namespace Archipelago

/-- The error is of no avoidable kind, but perhaps for a variable that is missing. -/
def StoreError.Excused (missing : String → Prop) (e : StoreError) : Prop :=
  e.kind.isAvoidable = true → ∃ name, missing name ∧ e = .unknownVariable name

/-- The same of an action, which may lack the variable for itself or for an evaluation. -/
def ActionError.Excused (missing : String → Prop) (e : ActionError) : Prop :=
  e.kind.isAvoidable = true →
    ∃ name, missing name ∧ (e = .unknownVariable name ∨ e = .eval (.unknownVariable name))

variable {sc : Scoping} {missing : String → Prop}

theorem StoreError.excused_of_kind {e : StoreError} (h : e.kind.isAvoidable = false) :
    e.Excused missing := fun he => by rw [h] at he; cases he

theorem ActionError.excused_of_kind {e : ActionError} (h : e.kind.isAvoidable = false) :
    e.Excused missing := fun he => by rw [h] at he; cases he

theorem ActionError.excused_ofStore {e : StoreError} (h : e.Excused missing) :
    (ActionError.ofStore e).Excused missing := by
  intro he
  rw [kind_ofStore] at he
  obtain ⟨name, hname, rfl⟩ := h he
  exact ⟨name, hname, .inl rfl⟩

/-! ## Stores -/

/-- A store in which checked steps can be run. -/
structure Store.Ready (sc : Scoping) (missing : String → Prop) (s : Store) : Prop where
  limits : s.limits = sc.limits
  serves : sc.Serves missing s.toScope

namespace Store

/-- A name means something just if it is that of a variable. -/
theorem isSome_lookup {s : Store} {name : String} :
    (s.toScope.lookup name).isSome = true ↔ name ∈ s.names := by
  rw [Store.names, Dict.mem_keys_iff, toScope, Option.isSome_map, Option.isSome_iff_exists]

/-- A store with the same declarations is as ready. -/
theorem Ready.of_frame {s t : Store} (h : s.Ready sc missing) (hf : t.frame = s.frame) :
    t.Ready sc missing where
  limits := (limits_eq hf).trans h.limits
  serves name hname := (h.serves name hname).imp_left fun hsome => by
    rw [isSome_lookup] at hsome ⊢
    rwa [names_eq hf]

namespace Ready

variable {s : Store} (h : s.Ready sc missing)
include h

/-- A known variable that is not there is one of those that may be missing. -/
theorem missing_of_get? {name : String} (hname : sc.known name)
    (hnone : Dict.get? s.vars name = none) :
    missing name := by
  refine (h.serves name hname).resolve_left fun hsome => ?_
  rw [toScope, Option.isSome_map, hnone] at hsome
  cases hsome

/-- A write of a known variable fails for its value only. -/
theorem stage_fails {w : Write} (hw : sc.known w.name) :
    FailsOnly (StoreError.Excused missing) (s.stage w) := by
  have hcoerce : ∀ (t : VarType) (name : String) (v : Value),
      FailsOnly (StoreError.Excused missing) (t.coerce name v) := by
    intro t name v
    unfold VarType.coerce
    dsimp only
    repeat' split
    all_goals first
      | exact True.intro
      | exact StoreError.excused_of_kind rfl
  unfold stage
  split
  · rename_i hnone
    exact fun _ => ⟨w.name, h.missing_of_get? hw hnone, rfl⟩
  · split
    · exact StoreError.excused_of_kind rfl
    · cases w with
      | set name value => exact (hcoerce _ _ _).bind fun _ _ => True.intro
      | reset name => exact (hcoerce _ _ _).bind fun _ _ => True.intro

/-- A batch fails for its values only. -/
theorem stageAll_fails {ws : List Write} (hws : ∀ w ∈ ws, sc.known w.name) :
    FailsOnly (StoreError.Excused missing) (s.stageAll ws) := by
  induction ws with
  | nil => exact True.intro
  | cons w ws ih =>
    refine (h.stage_fails (hws w List.mem_cons_self)).bind fun _ _ => ?_
    exact (ih fun w hw => hws w (List.mem_cons_of_mem _ hw)).bind fun _ _ => True.intro

/-- A batch of writes of known variables leaves all variables in place. -/
theorem apply_yields {ws : List Write} (hws : ∀ w ∈ ws, sc.known w.name) :
    Yields (StoreError.Excused missing) (fun r => r.1.Ready sc missing) (s.apply ws) := by
  have hfails : FailsOnly (StoreError.Excused missing) (s.apply ws) :=
    (h.stageAll_fails hws).bind fun _ _ => True.intro
  cases hr : s.apply ws with
  | error e => exact hfails.error hr
  | ok r => exact h.of_frame (apply_tracks hr).frame

end Ready

end Store

/-! ## One step -/

namespace Action

/-- A part of a step fails without avoidable errors. -/
abbrev Fails (missing : String → Prop) {α : Type} (x : Except ActionError α) : Prop :=
  FailsOnly (ActionError.Excused missing) x

theorem evaluated_fails {α : Type} {x : Except EvalError α} (h : FailsByValue missing x) :
    Fails missing (evaluated x) := by
  cases x with
  | ok a => exact True.intro
  | error e =>
    intro he
    obtain ⟨name, hname, rfl⟩ := h he
    exact ⟨name, hname, .inr rfl⟩

theorem items_fails (var : String) (v : Value) : Fails missing (items var v) := by
  unfold items
  split
  · exact True.intro
  · exact ActionError.excused_of_kind rfl

theorem fields_fails (var : String) (v : Value) : Fails missing (fields var v) := by
  unfold fields
  split
  · exact True.intro
  · exact True.intro
  · exact True.intro
  · exact ActionError.excused_of_kind rfl

/-! ## Sorting -/

/-- A sorting fails for values that cannot be compared. -/
theorem insertSorted_fails (order : SortOrder) (x : Value × Value) (ys : List (Value × Value)) :
    FailsByValue missing (insertSorted order x ys) := by
  induction ys with
  | nil => exact True.intro
  | cons y ys ih =>
    have hbefore : FailsByValue missing (goesBefore order x.1 y.1) :=
      (Value.order_fails _ _).bind fun _ _ => True.intro
    refine hbefore.bind fun b _ => ?_
    split
    · exact ih.bind fun _ _ => True.intro
    · exact True.intro

theorem insertAllSorted_fails (order : SortOrder) (xs sorted : List (Value × Value)) :
    FailsByValue missing (insertAllSorted order sorted xs) := by
  induction xs generalizing sorted with
  | nil => exact True.intro
  | cons x xs ih => exact (insertSorted_fails order x sorted).bind fun _ _ => ih _

theorem sortByKey_fails (order : SortOrder) (keyed : List (Value × Value)) :
    FailsByValue missing (sortByKey order keyed) :=
  (insertAllSorted_fails order keyed []).bind fun _ _ => True.intro

theorem total_fails (var : String) (acc : Float) (vs : List Value) :
    Fails missing (total var acc vs) := by
  induction vs generalizing acc with
  | nil => exact True.intro
  | cons v vs ih =>
    unfold total
    split
    · exact ih _
    · exact ActionError.excused_of_kind rfl

/-! ## Steps over variables and expressions -/

section Step

variable {s : Store} (h : s.Ready sc missing)
include h

theorem current_fails {var : String} (hvar : sc.known var) : Fails missing (current s var) := by
  unfold current Store.get
  split
  · exact True.intro
  · rename_i hnone
    exact fun _ => ⟨var, h.missing_of_get? hvar hnone, .inl rfl⟩

theorem source_fails {var target : String} (hvar : sc.known var) (htarget : sc.known target) :
    Fails missing (source s var target) :=
  (current_fails h htarget).bind fun _ _ => (current_fails h hvar).bind fun v _ => items_fails var v

theorem mergeAll_fails {vars : List String} (hvars : ∀ var ∈ vars, sc.known var)
    (merged : Dict Value) : Fails missing (mergeAll s merged vars) := by
  induction vars generalizing merged with
  | nil => exact True.intro
  | cons var vars ih =>
    refine (current_fails h (hvars var List.mem_cons_self)).bind fun v _ => ?_
    exact (fields_fails var v).bind fun _ _ =>
      ih (fun var hm => hvars var (List.mem_cons_of_mem _ hm)) _

variable {names : List String} {captured : Dict Value}
variable (hnames : ∀ name ∈ names, (Dict.get? captured name).isSome = true)
include hnames

/-- An operand that has been checked fails for its values only. -/
theorem resolve_fails {v : Operand} (hv : sc.CheckedOperand names v) :
    FailsByValue missing (v.resolve s.limits s.toScope [captured]) := by
  cases v with
  | value v => exact True.intro
  | expr src =>
    obtain ⟨e, he, hclosed⟩ := hv
    unfold Operand.resolve
    dsimp only
    rw [h.limits, he]
    refine Expr.eval_fails e (hclosed.resolves h.serves (fun name hname => ?_)
      (List.forall_mem_nil _))
    rw [Locals.get?_cons, Option.isSome_or, hnames name hname, Bool.true_or]

/-- Around an item, its names and the captured ones are bound. -/
theorem evalItem_fails {e : Expr} (he : sc.Closed names ["item", "index"] e) (item : Value)
    (index : Nat) : FailsByValue missing (evalItem s captured e item index) := by
  refine Expr.eval_fails e (he.resolves h.serves (fun name hname => ?_) fun name hname => ?_)
  · rw [Locals.get?_cons, Locals.get?_cons, Option.isSome_or, Option.isSome_or, hnames name hname,
      Bool.true_or, Bool.or_true]
  · rw [Locals.get?_cons, Option.isSome_or]
    rcases List.mem_pair.1 hname with rfl | rfl
    · rfl
    · rfl

theorem evalItems_fails {e : Expr} (he : sc.Closed names ["item", "index"] e) (i : Nat)
    (xs : List Value) : FailsByValue missing (evalItems s captured e i xs) := by
  induction xs generalizing i with
  | nil => exact True.intro
  | cons x xs ih =>
    exact (evalItem_fails h hnames he x i).bind fun _ _ => (ih _).bind fun _ _ => True.intro

theorem findItem_fails {e : Expr} (he : sc.Closed names ["item", "index"] e) (i : Nat)
    (xs : List Value) : FailsByValue missing (findItem s captured e i xs) := by
  induction xs generalizing i with
  | nil => exact True.intro
  | cons x xs ih =>
    refine (evalItem_fails h hnames he x i).bind fun v _ => ?_
    split
    · exact True.intro
    · exact ih _

theorem totalOf_fails {e : Expr} (he : sc.Closed names ["item", "index"] e) (var : String) (i : Nat)
    (acc : Float) (xs : List Value) : Fails missing (totalOf s captured var e i acc xs) := by
  induction xs generalizing i acc with
  | nil => exact True.intro
  | cons x xs ih =>
    refine (evaluated_fails (evalItem_fails h hnames he x i)).bind fun v _ => ?_
    split
    · exact ih _ _
    · exact ActionError.excused_of_kind rfl

omit hnames in
/-- A checked expression over items is read as one that is closed around an item. -/
theorem parse_yields {src : String} (hsrc : sc.CheckedItemExpr names src) :
    Yields (ActionError.Excused missing) (sc.Closed names ["item", "index"]) (parse s src) := by
  obtain ⟨e, he, hclosed⟩ := hsrc
  unfold parse
  rw [h.limits, he]
  exact hclosed

/-! ## The writes of a step -/

/-- Writes of known variables. -/
abbrev Writes (missing : String → Prop) (sc : Scoping) (x : Result) : Prop :=
  Yields (ActionError.Excused missing) (fun ws => ∀ w ∈ ws, sc.known w.name) x

omit h hnames in
theorem writes_set {var : String} (hvar : sc.known var) (v : Value) :
    Writes missing sc (.ok [.set var v]) := fun w hw => by
  rw [List.mem_singleton.1 hw]
  exact hvar

theorem stepped_yields {var : String} (hvar : sc.known var) {amount : Operand}
    (ha : sc.CheckedOperand names amount) (kind : String) (f : Float → Float → Float) :
    Writes missing sc (stepped s [captured] kind var amount f) := by
  refine (current_fails h hvar).bind fun v _ => ?_
  split
  · refine (evaluated_fails (resolve_fails h hnames ha)).bind fun v _ => ?_
    split
    · exact writes_set hvar _
    · exact ActionError.excused_of_kind rfl
  · exact ActionError.excused_of_kind rfl

/-- A checked step writes known variables, or fails without an avoidable error. -/
theorem writes_yields {a : Action} (ha : sc.CheckedAction names a) :
    Writes missing sc (a.writes s captured) := by
  cases a with
  | set var v =>
    refine (current_fails h ha.1).bind fun _ _ => ?_
    exact (evaluated_fails (resolve_fails h hnames ha.2)).bind fun _ _ => writes_set ha.1 _
  | increment var v => exact stepped_yields h hnames ha.1 ha.2 _ _
  | decrement var v => exact stepped_yields h hnames ha.1 ha.2 _ _
  | toggle var =>
    refine (current_fails h ha).bind fun v _ => ?_
    split
    · exact writes_set ha _
    · exact ActionError.excused_of_kind rfl
  | reset var =>
    refine (current_fails h ha).bind fun v _ => fun w hw => ?_
    rw [List.mem_singleton.1 hw]
    exact ha
  | cycle var values =>
    refine (current_fails h ha).bind fun v _ => ?_
    split
    · exact writes_set ha _
    · exact ActionError.excused_of_kind rfl
  | push var v =>
    refine (current_fails h ha.1).bind fun xs _ => (items_fails var xs).bind fun _ _ => ?_
    exact (evaluated_fails (resolve_fails h hnames ha.2)).bind fun _ _ => writes_set ha.1 _
  | pop var =>
    refine (current_fails h ha).bind fun xs _ => (items_fails var xs).bind fun xs _ => ?_
    show Writes missing sc (.ok (if xs.isEmpty then [] else _))
    split
    · exact List.forall_mem_nil _
    · exact writes_set ha _
  | removeAt var v =>
    have hrange : ∀ v xs, Writes missing sc (writes.outOfRange v xs) := fun _ _ =>
      ActionError.excused_of_kind rfl
    refine (current_fails h ha.1).bind fun xs _ => (items_fails var xs).bind fun xs _ => ?_
    refine (evaluated_fails (resolve_fails h hnames ha.2)).bind fun v _ => ?_
    split
    · split
      · exact writes_set ha.1 _
      · exact hrange _ _
    · exact hrange _ _
  | objectSet var path v =>
    refine (current_fails h ha.1).bind fun fs _ => (fields_fails var fs).bind fun fs _ => ?_
    dsimp only
    split
    · exact ActionError.excused_of_kind rfl
    · exact (evaluated_fails (resolve_fails h hnames ha.2)).bind fun _ _ => writes_set ha.1 _
  | merge sources target =>
    refine (current_fails h ha.2).bind fun _ _ => ?_
    exact (mergeAll_fails h ha.1 []).bind fun _ _ => writes_set ha.2 _
  | clone var target =>
    refine (current_fails h ha.2).bind fun _ _ => ?_
    exact (current_fails h ha.1).bind fun _ _ => writes_set ha.2 _
  | filter var target src =>
    refine (source_fails h ha.1 ha.2.1).bind fun xs _ => (parse_yields h ha.2.2).bind fun e he => ?_
    exact (evaluated_fails (evalItems_fails h hnames he 0 xs)).bind fun _ _ => writes_set ha.2.1 _
  | sort var target key order =>
    refine (source_fails h ha.1 ha.2.1).bind fun xs _ => ?_
    have hkeyed : ∀ keyed, Writes missing sc (do
        let sorted ← evaluated (sortByKey order keyed)
        .ok [.set target (.array sorted)]) := fun keyed =>
      (evaluated_fails (sortByKey_fails order keyed)).bind fun _ _ => writes_set ha.2.1 _
    cases key with
    | none => exact hkeyed _
    | some src =>
      refine (parse_yields h (ha.2.2 src rfl)).bind fun e he => ?_
      exact (evaluated_fails (evalItems_fails h hnames he 0 xs)).bind fun keyed _ => hkeyed keyed
  | transform var target src =>
    refine (source_fails h ha.1 ha.2.1).bind fun xs _ => (parse_yields h ha.2.2).bind fun e he => ?_
    exact (evaluated_fails (evalItems_fails h hnames he 0 xs)).bind fun _ _ => writes_set ha.2.1 _
  | find var target src =>
    refine (source_fails h ha.1 ha.2.1).bind fun xs _ => (parse_yields h ha.2.2).bind fun e he => ?_
    exact (evaluated_fails (findItem_fails h hnames he 0 xs)).bind fun _ _ => writes_set ha.2.1 _
  | sum var target e =>
    refine (source_fails h ha.1 ha.2.1).bind fun xs _ => ?_
    cases e with
    | none => exact (total_fails var 0.0 xs).bind fun _ _ => writes_set ha.2.1 _
    | some src =>
      refine (parse_yields h (ha.2.2 src rfl)).bind fun e he => ?_
      exact (totalOf_fails h hnames he var 0 0.0 xs).bind fun _ _ => writes_set ha.2.1 _
  | sequence steps => exact List.forall_mem_nil _
  | delay ms => exact List.forall_mem_nil _

end Step

/-! ## Runs -/

section Run

variable {names : List String} {locals : Dict Value}
variable (hnames : ∀ name ∈ names, (Dict.get? locals name).isSome = true)
include hnames

/-- A single action that has been checked fails for its values only, and leaves a store as ready. -/
theorem runLeaf_yields {a : Action} (ha : sc.CheckedAction names a) {t : Trace}
    (ht : t.store.Ready sc missing) :
    Yields (fun f : Failure => f.error.Excused missing) (fun u => u.store.Ready sc missing)
      (runLeaf locals a t) := by
  have hwrites := writes_yields ht hnames ha
  unfold runLeaf
  cases hw : a.writes t.store locals with
  | error e => exact hwrites.error hw
  | ok ws =>
    have happly := ht.apply_yields (hwrites.ok hw)
    dsimp only
    cases hr : t.store.apply ws with
    | error e => exact ActionError.excused_ofStore (happly.error hr)
    | ok r => exact happly.ok hr

/-- Neither steps in a row nor a single step fail avoidably, and what they leave behind a delay is
checked. -/
theorem steps_yield :
    (∀ as t, sc.CheckedSteps names as → t.store.Ready sc missing →
      Yields (fun f : Failure => f.error.Excused missing)
        (fun r => r.1.store.Ready sc missing ∧ ∀ c, r.2 = some c →
          c.locals = locals ∧ sc.CheckedSteps names c.steps) (runSequence locals as t)) ∧
      ∀ a t, sc.CheckedAction names a → t.store.Ready sc missing →
        Yields (fun f : Failure => f.error.Excused missing)
          (fun r => r.1.store.Ready sc missing ∧ ∀ x, r.2 = some x → sc.CheckedSteps names x.2)
          (runStep locals a t) := by
  refine runSequence.mutual_induct _ _ ?delay ?sequence ?leaf ?nil ?cons
  case delay =>
    intro ms t _ ht
    refine ⟨ht, fun x hx => ?_⟩
    obtain rfl := Option.some.inj hx
    exact True.intro
  case sequence =>
    intro steps t ih ha ht
    rw [runStep]
    refine (ih ha ht).bind fun r hr => ⟨hr.1, fun x hx => ?_⟩
    obtain ⟨c, hc, rfl⟩ := Option.map_eq_some_iff.1 hx
    exact (hr.2 c hc).2
  case leaf =>
    intro leaf t hdelay hsequence ha ht
    rw [runStep.eq_3 locals leaf t hdelay hsequence]
    exact (runLeaf_yields hnames ha ht).bind fun u hu => ⟨hu, fun x hx => by cases hx⟩
  case nil => exact fun t _ ht => ⟨ht, fun c hc => by cases hc⟩
  case cons =>
    intro a as t ih ihs has ht
    rw [runSequence]
    refine (ih has.1 ht).bind ?_
    rintro ⟨u, suspended⟩ ⟨hu, hrest⟩
    cases suspended with
    | none => exact ihs u has.2 hu
    | some x =>
      obtain ⟨ms, rest⟩ := x
      refine ⟨hu, fun c hc => ?_⟩
      obtain rfl := Option.some.inj hc
      refine ⟨rfl, (Scoping.checkedSteps_iff _ _).2 fun a ha => ?_⟩
      rcases List.mem_append.1 ha with ha | ha
      · exact (Scoping.checkedSteps_iff _ _).1 (hrest _ rfl) a ha
      · exact (Scoping.checkedSteps_iff _ _).1 has.2 a ha

/-- A sequence that has been checked fails for its values only, and what it suspends has been
checked. -/
theorem runSequence_yields {as : List Action} (has : sc.CheckedSteps names as) {t : Trace}
    (ht : t.store.Ready sc missing) :
    Yields (fun f : Failure => f.error.Excused missing)
      (fun r => r.1.store.Ready sc missing ∧ ∀ c ∈ r.2.toList, sc.CheckedUnder c.locals c.steps)
      (runSequence locals as t) :=
  ((steps_yield hnames).1 as t has ht).mono fun r hr => ⟨hr.1, fun c hc => by
    obtain ⟨hlocals, hsteps⟩ := hr.2 c (Option.mem_toList.1 hc)
    exact ⟨names, hlocals ▸ hnames, hsteps⟩⟩

/-- A list of actions that has been checked fails for its values only, and what it suspends has been
checked. -/
theorem run_yields {as : List Action} (has : sc.CheckedSteps names as) {t : Trace}
    (ht : t.store.Ready sc missing) :
    Yields (fun f : Failure => f.error.Excused missing)
      (fun r => r.1.store.Ready sc missing ∧ ∀ c ∈ r.2, sc.CheckedUnder c.locals c.steps)
      (run locals as t) := by
  fun_induction run locals as t with
  | case1 t => exact ⟨ht, List.forall_mem_nil _⟩
  | case2 ms rest t =>
    refine ⟨ht, fun c hc => ?_⟩
    rw [List.mem_singleton.1 hc]
    exact ⟨names, hnames, has.2⟩
  | case3 steps rest t ih =>
    refine (runSequence_yields hnames has.1 ht).bind fun r hr => ?_
    refine (ih r.1 has.2 hr.1).bind fun r' hr' => ⟨hr'.1, fun c hc => ?_⟩
    exact (List.mem_append.1 hc).elim (hr.2 c) (hr'.2 c)
  | case4 leaf rest t _ _ ih =>
    exact (runLeaf_yields hnames has.1 ht).bind fun u hu => ih u has.2 hu

end Run

end Action

/-- A sequence goes on as it was checked. -/
theorem Continuation.resume_yields {c : Continuation} (hc : sc.CheckedUnder c.locals c.steps)
    {t : Trace} (ht : t.store.Ready sc missing) :
    Yields (fun f : Failure => f.error.Excused missing)
      (fun r => r.1.store.Ready sc missing ∧ ∀ k ∈ r.2, sc.CheckedUnder k.locals k.steps)
      (c.resume t) := by
  obtain ⟨names, hnames, hsteps⟩ := hc
  exact (Action.runSequence_yields hnames hsteps ht).bind fun r hr => hr

end Archipelago
