import Archipelago.Compile.Tree
import Archipelago.Proofs.Compile.Ensures

/-!
# Checks of expressions and of steps

Each check of a compilation ensures what its name says, and each step of an event that is kept is a
checked action.
-/

namespace Archipelago.Compile

open Markup (OpenTag RawNode)
open Template (splitPaths)

/-- What a compilation by these rules checks names against. -/
abbrev Rules.scoping (r : Rules) (known : String → Prop) : Scoping := ⟨r.eval, known⟩

/-- A cyclic variable counts as known. -/
def Admits (r : Rules) (known : String → Prop) : Prop := ∀ name ∈ r.cyclic, known name

variable {r : Rules} {known : String → Prop}

section Checks

variable (h : Admits r known) (span : Span)
include h

/-! ## Names -/

/-- A name that has been checked is known in the end. -/
theorem ensures_checkName (name : String) :
    Ensures r known (checkName span name) fun _ => known name := by
  unfold checkName
  refine ensures_get.bind fun d => ensures_read.bind fun rules => ?_
  split
  · rename_i hc
    refine .pure ?_
    rintro rfl hclean
    rcases (Bool.or_eq_true _ _).mp hc with hd | hcyclic
    · exact hclean.declared name (Dict.contains_iff.1 hd)
    · exact h name (List.contains_iff_mem.1 hcyclic)
  · exact (ensures_report _ _ _ fun _ => False).bind fun _ => .pure fun hfalse => hfalse.elim

omit h in
theorem ensures_isReadOnly (name : String) :
    Ensures r known (isReadOnly name) fun _ => True :=
  ensures_get.andThen fun _ => .pure True.intro

theorem ensures_checkTarget (name : String) :
    Ensures r known (checkTarget span name) fun _ => known name := by
  refine (ensures_checkName h span name).bind fun b => ?_
  split
  · refine (ensures_isReadOnly name).andThen fun readOnly => ?_
    split
    · exact (ensures_warn _ _).mono fun _ _ hn => hn
    · exact .pure fun hn => hn
  · exact .pure fun hn => hn

/-! ## Expressions and paths -/

theorem ensures_checkVars (bound : Bound) (vars : List String) :
    Ensures r known (checkVars span bound vars) fun _ =>
      ∀ name ∈ vars, name ∈ bound.names ∨ known name := by
  induction vars with
  | nil => exact .pure fun _ hn => by cases hn
  | cons name vars ih =>
    have hrest : Ensures r known (checkVars span bound vars) fun _ =>
        (name ∈ bound.names ∨ known name) →
          ∀ other ∈ name :: vars, other ∈ bound.names ∨ known other :=
      ih.mono fun _ hvars hname => List.forall_mem_cons.2 ⟨hname, hvars⟩
    unfold checkVars
    dsimp only
    split
    · exact (ensures_checkName h span name).discard.bind fun _ =>
        hrest.mono fun _ hall hname => hall (.inr hname)
    · rename_i hbound
      refine hrest.mono fun _ hall => hall (.inl ?_)
      simpa using hbound

omit h in
theorem ensures_checkBindings (bound : Bound) (names : List String) :
    Ensures r known (checkBindings span bound names) fun _ =>
      ∀ name ∈ names, name ∈ bound.names ∨ name ∈ bound.bare := by
  induction names with
  | nil => exact .pure fun _ hn => by cases hn
  | cons name names ih =>
    have hrest : Ensures r known (checkBindings span bound names) fun _ =>
        (name ∈ bound.names ∨ name ∈ bound.bare) →
          ∀ other ∈ name :: names, other ∈ bound.names ∨ other ∈ bound.bare :=
      ih.mono fun _ hnames hname => List.forall_mem_cons.2 ⟨hname, hnames⟩
    unfold checkBindings
    dsimp only
    split
    · exact (ensures_report _ _ _ fun _ => False).bind fun _ =>
        hrest.mono fun _ _ hfalse => hfalse.elim
    · rename_i hbound
      refine hrest.mono fun _ hall => hall ?_
      by_cases hname : name ∈ bound.names
      · exact .inl hname
      · exact .inr (by simpa [hname] using hbound)

/-- All that has been checked is there. -/
theorem ensures_checkReferences (bound : Bound) (e : Expr) :
    Ensures r known (checkReferences span bound e) fun _ =>
      (r.scoping known).Closed bound.names bound.bare e :=
  (ensures_checkVars h span bound _).bind fun _ =>
    (ensures_checkBindings span bound _).mono fun _ hbindings hvars => ⟨hvars, hbindings⟩

/-- An expression that passes can be read and is closed. -/
theorem ensures_checkExpr (bound : Bound) (src : String) :
    Ensures r known (checkExpr span bound src) fun _ =>
      ∃ e, Expr.parse r.eval src = .ok e ∧
        (r.scoping known).Closed bound.names bound.bare e := by
  refine ensures_read.bind fun rules => ?_
  split
  · rename_i e he
    refine (ensures_checkReferences h span bound e).mono fun _ hclosed hr => ⟨e, ?_, hclosed⟩
    rw [← hr, he]
  · exact ensures_report _ _ _ _

/-- A path that has been checked can be read, and all that it reads is there. -/
theorem ensures_checkPath (names : List String) (path : String) :
    Ensures r known (checkPath span names path) fun _ =>
      (r.scoping known).CheckedPath names path := by
  refine ensures_read.bind fun rules => ?_
  split
  · rename_i e he
    refine (ensures_checkReferences h span ⟨names, []⟩ e).mono fun _ hclosed hr => ⟨e, ?_, hclosed⟩
    rw [← hr] at *
    exact he
  · exact ensures_report _ _ _ _

theorem ensures_checkPaths (names paths : List String) :
    Ensures r known (checkPaths span names paths) fun _ =>
      ∀ path ∈ paths, (r.scoping known).CheckedPath names path := by
  induction paths with
  | nil => exact .pure fun _ hn => by cases hn
  | cons path paths ih =>
    exact (ensures_checkPath h span names path).bind fun _ =>
      ih.mono fun _ hpaths hpath => List.forall_mem_cons.2 ⟨hpath, hpaths⟩

end Checks

/-! ## Checks declare nothing -/

section

variable (span : Span)

theorem steady_checkName (name : String) : Steady r (checkName span name) := by
  refine Steady.get.bind fun d => Steady.read.bind fun rules => ?_
  split
  · exact .pure _
  · exact (Steady.report _ _ _).bind fun _ => .pure _

theorem steady_checkVars (bound : Bound) (vars : List String) :
    Steady r (checkVars span bound vars) := by
  induction vars with
  | nil => exact .pure _
  | cons name vars ih =>
    unfold checkVars
    dsimp only
    split
    · exact ((steady_checkName span name).bind fun _ => .pure _).bind fun _ => ih
    · exact ih

theorem steady_checkBindings (bound : Bound) (names : List String) :
    Steady r (checkBindings span bound names) := by
  induction names with
  | nil => exact .pure _
  | cons name names ih =>
    unfold checkBindings
    dsimp only
    split
    · exact (Steady.report _ _ _).bind fun _ => ih
    · exact ih

theorem steady_checkExpr (bound : Bound) (src : String) : Steady r (checkExpr span bound src) := by
  refine Steady.read.bind fun rules => ?_
  split
  · exact (steady_checkVars span bound _).bind fun _ => steady_checkBindings span bound _
  · exact .report _ _ _

end

/-! ## Steps of events -/

section Steps

variable (h : Admits r known) (tag : OpenTag) (names : List String)
include h

/-- An operand has been checked. -/
theorem ensures_valueOperand :
    EnsuresSome r known (valueOperand tag names) ((r.scoping known).CheckedOperand names) := by
  unfold valueOperand
  split
  · exact (EnsuresSome.lift (ensures_checkExpr h tag.span ⟨names, []⟩ _)).bind fun _ => .pure id
  · exact (ensures_required tag "value").andThen fun _ => .pure True.intro

theorem ensures_numberOperand (text : String) :
    Ensures r known (numberOperand tag names text) ((r.scoping known).CheckedOperand names) := by
  unfold numberOperand
  split
  · exact .pure True.intro
  · exact (ensures_checkExpr h tag.span ⟨names, []⟩ _).bind fun _ => .pure id

theorem ensures_targetOr (default : String) :
    Ensures r known (targetOr tag default) fun target => known default → known target := by
  unfold targetOr
  split
  · exact (ensures_checkTarget h tag.span _).bind fun _ => .pure fun ht _ => ht
  · exact .pure id

theorem ensures_targetOf : EnsuresSome r known (targetOf tag) known :=
  (ensures_required tag "target").andThen fun _ =>
    (EnsuresSome.lift (ensures_checkTarget h tag.span _)).bind fun _ => .pure id

/-- An expression over items may read the item and its index. -/
theorem ensures_checkItemExpr (src : Option String) :
    Ensures r known (checkItemExpr tag names src) fun _ =>
      ∀ text, src = some text → (r.scoping known).CheckedItemExpr names text := by
  unfold checkItemExpr
  split
  · exact (ensures_checkExpr h tag.span (itemBound names) _).mono fun _ hsrc text he =>
      Option.some.inj he ▸ hsrc
  · exact .pure fun _ he => by cases he

omit h in
theorem ensures_sortOrder : EnsuresSome r known (sortOrder tag) fun _ => True := by
  unfold sortOrder
  split
  · exact .pure True.intro
  · exact .pure True.intro
  · exact ensures_reject _ _ _ _

omit h in
theorem ensures_delayStep (inSequence : Bool) :
    EnsuresSome r known (delayStep tag inSequence) ((r.scoping known).CheckedAction names) := by
  unfold delayStep
  split
  · exact ensures_reject _ _ _ _
  · refine (ensures_required tag "ms").andThen fun raw => ?_
    split
    · exact .pure True.intro
    · exact ensures_reject _ _ _ _

theorem ensures_checkSources (span : Span) (sources : List String) :
    Ensures r known (checkSources span sources) fun _ => ∀ name ∈ sources, known name := by
  induction sources with
  | nil => exact .pure fun _ hn => by cases hn
  | cons name sources ih =>
    exact (ensures_checkName h span name).discard.bind fun _ =>
      ih.mono fun _ hsources hname => List.forall_mem_cons.2 ⟨hname, hsources⟩

/-- All variables of a merge are known. -/
theorem ensures_mergeStep :
    EnsuresSome r known (mergeStep tag) ((r.scoping known).CheckedAction names) :=
  (ensures_required tag "sources").andThen fun _ =>
    (ensures_required tag "target").andThen fun _ =>
      (EnsuresSome.lift (ensures_checkSources h tag.span _)).bind fun _ =>
        (EnsuresSome.lift (ensures_checkTarget h tag.span _)).bind fun _ =>
          .pure fun htarget hsources => ⟨hsources, htarget⟩

theorem ensures_amount :
    Ensures r known (varStep.amount tag names) ((r.scoping known).CheckedOperand names) := by
  unfold varStep.amount
  split
  · exact ensures_numberOperand h tag names _
  · exact .pure True.intro

/-- An action on a variable has been checked. -/
theorem ensures_varStep (a : ActionTag) :
    EnsuresSome r known (varStep tag a names) ((r.scoping known).CheckedAction names) := by
  unfold varStep
  refine (ensures_required tag "var").andThen fun var => ?_
  have htarget : EnsuresSome r known (liftM (checkTarget tag.span var)) fun _ => known var :=
    .lift (ensures_checkTarget h tag.span var)
  have hname : EnsuresSome r known (discard (liftM (checkName tag.span var)))
      fun _ => known var :=
    (EnsuresSome.lift (ensures_checkName h tag.span var)).bind fun _ => .pure id
  cases a with
  | set | push =>
    exact htarget.bind fun _ => (ensures_valueOperand h tag names).bind fun v =>
      .pure fun hv hvar => ⟨hvar, hv⟩
  | increment | decrement =>
    exact htarget.bind fun _ => (EnsuresSome.lift (ensures_amount h tag names)).bind fun v =>
      .pure fun hv hvar => ⟨hvar, hv⟩
  | toggle | reset | pop => exact htarget.bind fun _ => .pure id
  | cycle => exact htarget.bind fun _ => (ensures_required tag "values").andThen fun _ => .pure id
  | removeAt =>
    exact htarget.bind fun _ => (ensures_required tag "index").andThen fun index =>
      (EnsuresSome.lift (ensures_numberOperand h tag names index)).bind fun v =>
        .pure fun hv hvar => ⟨hvar, hv⟩
  | objectSet =>
    exact htarget.bind fun _ => (ensures_required tag "path").andThen fun path =>
      (ensures_valueOperand h tag names).bind fun v => .pure fun hv hvar => ⟨hvar, hv⟩
  | clone =>
    exact hname.bind fun _ => (ensures_targetOf h tag).bind fun t => .pure fun ht hvar => ⟨hvar, ht⟩
  | filter | transform =>
    refine hname.bind fun _ => (ensures_required tag _).andThen fun src => ?_
    refine (EnsuresSome.lift (ensures_checkItemExpr h tag names (some src))).bind fun _ => ?_
    exact (EnsuresSome.lift (ensures_targetOr h tag var)).bind fun t =>
      .pure fun ht hsrc hvar => ⟨hvar, ht hvar, hsrc src rfl⟩
  | find =>
    refine hname.bind fun _ => (ensures_required tag "condition").andThen fun src => ?_
    refine (EnsuresSome.lift (ensures_checkItemExpr h tag names (some src))).bind fun _ => ?_
    exact (ensures_targetOf h tag).bind fun t => .pure fun ht hsrc hvar => ⟨hvar, ht, hsrc src rfl⟩
  | sort =>
    refine hname.bind fun _ => ?_
    refine (EnsuresSome.lift (ensures_checkItemExpr h tag names (tag.attr? "by"))).bind fun _ => ?_
    exact (ensures_sortOrder tag).andThen fun order =>
      (EnsuresSome.lift (ensures_targetOr h tag var)).bind fun t =>
        .pure fun ht hkey hvar => ⟨hvar, ht hvar, hkey⟩
  | sum =>
    refine hname.bind fun _ => ?_
    refine (EnsuresSome.lift (ensures_checkItemExpr h tag names (tag.attr? "expression"))).bind
      fun _ => ?_
    exact (ensures_targetOf h tag).bind fun t => .pure fun ht he hvar => ⟨hvar, ht, he⟩
  | merge | sequence | delay => exact hname.andThen fun _ => .failure

end Steps

mutual

/-- All steps have been checked, at any depth. -/
theorem ensures_steps (h : Admits r known) (names : List String) (inSequence : Bool) (depth : Nat) :
    (ns : List RawNode) →
      Ensures r known (steps names inSequence depth ns) ((r.scoping known).CheckedSteps names)
  | [] => .pure True.intro
  | n :: rest => by
    unfold steps
    refine Ensures.bind (ensures_step h names inSequence depth n) fun a => ?_
    refine (ensures_steps h names inSequence depth rest).bind fun more => .pure ?_
    intro hmore ha
    rw [Scoping.checkedSteps_iff] at hmore ⊢
    intro b hb
    rcases List.mem_append.1 hb with hb | hb
    · exact ha b (Option.mem_toList.1 hb)
    · exact hmore b hb

/-- A step that is kept is checked. -/
theorem ensures_step (h : Admits r known) (names : List String) (inSequence : Bool) (depth : Nat) :
    (n : RawNode) → EnsuresSome r known (step names inSequence depth n)
      ((r.scoping known).CheckedAction names)
  | .text content span => by
    unfold step
    split
    · exact .failure
    · exact ensures_reject _ _ _ _
  | .element tag children => by
    unfold step
    have hcount : EnsuresSome r known (liftM (countElement tag.span depth)) fun _ => True :=
      .lift (ensures_countElement tag.span depth)
    split
    · refine hcount.andThen fun counted => EnsuresSome.givenUp fun _ => ?_
      dsimp only
      split
      · refine (EnsuresSome.lift (ensures_steps h names true (depth + 1) children)).bind
          fun steps => .pure ?_
        exact fun hsteps => hsteps
      · exact ensures_delayStep tag names inSequence
      · exact ensures_mergeStep h tag names
      · exact ensures_varStep h tag names _
    · exact ensures_reject _ _ _ _

end

end Archipelago.Compile
