import Archipelago.Proofs.Action.Trace
import Archipelago.Proofs.Expr.Failures

/-!
# What a run of actions writes

A step writes its target and nothing else. So a run writes targets of its steps only, wherever it
ends, and the steps that a delay leaves behind are some of them.
-/

namespace Archipelago

namespace Action

theorem mem_targetsAll {as : List Action} {var : String} :
    var ∈ targetsAll as ↔ ∃ a ∈ as, var ∈ a.targets := by
  induction as with
  | nil => simp [targetsAll]
  | cons a as ih => simp [targetsAll, ih]

theorem targetsAll_subset_iff {as : List Action} {names : List String} :
    targetsAll as ⊆ names ↔ ∀ a ∈ as, a.targets ⊆ names := by
  constructor
  · exact fun h a ha var hvar => h (mem_targetsAll.2 ⟨a, ha, hvar⟩)
  · intro h var hvar
    obtain ⟨a, ha, hvar⟩ := mem_targetsAll.1 hvar
    exact h a ha hvar

theorem mem_targets_of_target? {a : Action} {var : String} (h : a.target? = some var) :
    var ∈ a.targets := by
  cases a with
  | sequence steps => cases h
  | delay ms => cases h
  | _ => exact List.mem_singleton.2 (Option.some.inj h).symm

/-! ## Steps -/

/-- A step that writes nothing but this variable, unless it fails. -/
abbrev WritesOnly (var : String) (x : Result) : Prop :=
  Yields (fun _ => True) (fun ws => ∀ w ∈ ws, w.name = var) x

namespace WritesOnly

variable {α : Type} {var : String}

/-- What a step looks at first is of no account. -/
theorem bind {x : Except ActionError α} {f : α → Result} (h : ∀ a, WritesOnly var (f a)) :
    WritesOnly var (x >>= f) := by
  cases x with
  | error e => exact True.intro
  | ok a => exact h a

theorem set (value : Value) : WritesOnly var (.ok [.set var value]) :=
  List.forall_mem_singleton.2 rfl

end WritesOnly

theorem writesOnly_stepped (s : Store) (locals : Locals) (kind var : String) (amount : Operand)
    (f : Float → Float → Float) : WritesOnly var (stepped s locals kind var amount f) := by
  refine .bind fun v => ?_
  split
  · refine .bind fun v => ?_
    split
    · exact .set _
    · exact True.intro
  · exact True.intro

/-- A step writes nothing but its target. -/
theorem target?_of_writes {a : Action} {s : Store} {captured : Dict Value} {ws : List Write}
    (h : a.writes s captured = .ok ws) : ∀ w ∈ ws, a.target? = some w.name := by
  suffices hall : ∀ var, a.target? = some var → WritesOnly var (a.writes s captured) by
    intro w hw
    cases hvar : a.target? with
    | some var => rw [(hall var hvar).ok h w hw]
    | none =>
      cases a with
      | sequence steps => cases Except.ok.inj h; cases hw
      | delay ms => cases Except.ok.inj h; cases hw
      | _ => cases hvar
  intro var hvar
  cases a with
  | sequence steps => cases hvar
  | delay ms => cases hvar
  | increment var' amount | decrement var' amount =>
    obtain rfl := Option.some.inj hvar
    exact writesOnly_stepped s _ _ _ _ _
  | set var' value =>
    obtain rfl := Option.some.inj hvar
    exact .bind fun _ => .bind fun _ => .set _
  | toggle var' =>
    obtain rfl := Option.some.inj hvar
    refine .bind fun v => ?_
    split
    · exact .set _
    · exact True.intro
  | reset var' =>
    obtain rfl := Option.some.inj hvar
    exact .bind fun _ => List.forall_mem_singleton.2 rfl
  | cycle var' values =>
    obtain rfl := Option.some.inj hvar
    refine .bind fun now => ?_
    split
    · exact .set _
    · exact True.intro
  | push var' value =>
    obtain rfl := Option.some.inj hvar
    exact .bind fun _ => .bind fun _ => .bind fun _ => .set _
  | pop var' =>
    obtain rfl := Option.some.inj hvar
    refine .bind fun _ => .bind fun xs => ?_
    show WritesOnly var' (.ok (if xs.isEmpty then [] else _))
    split
    · exact List.forall_mem_nil _
    · exact .set _
  | removeAt var' index =>
    obtain rfl := Option.some.inj hvar
    refine .bind fun _ => .bind fun xs => .bind fun v => ?_
    split
    · split
      · exact .set _
      · exact True.intro
    · exact True.intro
  | objectSet var' path value =>
    obtain rfl := Option.some.inj hvar
    refine .bind fun _ => .bind fun fs => ?_
    dsimp only
    split
    · exact True.intro
    · exact .bind fun _ => .set _
  | merge sources target | clone source target =>
    obtain rfl := Option.some.inj hvar
    exact .bind fun _ => .bind fun _ => .set _
  | filter source target src | transform source target src | find source target src =>
    obtain rfl := Option.some.inj hvar
    exact .bind fun _ => .bind fun _ => .bind fun _ => .set _
  | sort source target key order =>
    obtain rfl := Option.some.inj hvar
    refine .bind fun xs => ?_
    cases key with
    | none => exact .bind fun _ => .bind fun _ => .set _
    | some src => exact .bind fun _ => .bind fun _ => .bind fun _ => .set _
  | sum source target expression =>
    obtain rfl := Option.some.inj hvar
    refine .bind fun xs => ?_
    cases expression with
    | none => exact .bind fun _ => .set _
    | some src => exact .bind fun _ => .bind fun _ => .set _

end Action

/-! ## Runs -/

namespace Trace

/-- One trace goes on from another by batches that write nothing but these variables. -/
inductive Writes (names : List String) : Trace → Trace → Prop where
  | refl (t : Trace) : Writes names t t
  | batch {t u : Trace} {ws : List Write} {s : Store} {c : Commit} :
      Writes names t u → (∀ w ∈ ws, w.name ∈ names) → u.store.apply ws = .ok (s, c) →
        Writes names t (u.add s c)

/-- What each batch keeps that writes nothing but these variables is kept by a run. -/
theorem Writes.preserves {names : List String} {P : Store → Prop}
    (hP : ∀ s s' ws c, P s → (∀ w ∈ ws, w.name ∈ names) → s.apply ws = .ok (s', c) → P s')
    {t u : Trace} (h : Writes names t u) (ht : P t.store) : P u.store := by
  induction h with
  | refl => exact ht
  | batch _ hws ha ih => exact hP _ _ _ _ ih hws ha

end Trace

/-- A run that writes nothing but these variables, and leaves behind delays no steps that write
others. -/
def Confined (names : List String) (run : Trace → Outcome) : Prop :=
  ∀ t u, Trace.Writes names t u →
    Yields (fun f : Failure => Trace.Writes names t f.trace)
      (fun r => Trace.Writes names t r.1 ∧ ∀ c ∈ r.2, Action.targetsAll c.steps ⊆ names) (run u)

/-- A confined run has written nothing else when it ends or fails. -/
theorem Confined.lastTrace {names : List String} {run : Trace → Outcome} (h : Confined names run)
    (t : Trace) : t.Writes names (lastTrace Prod.fst (run t)) := by
  have hrun := h t t (.refl t)
  cases hr : run t with
  | error f => exact hrun.error hr
  | ok r => exact (hrun.ok hr).1

namespace Action

open Trace (Writes)

variable {names : List String} (locals : Dict Value)

theorem runLeaf_writes {a : Action} (ha : a.targets ⊆ names) {t u : Trace} (hu : Writes names t u) :
    Yields (fun f : Failure => Writes names t f.trace) (Writes names t) (runLeaf locals a u) := by
  unfold runLeaf
  split
  · exact hu
  · rename_i ws hws
    split
    · exact hu
    · rename_i happly
      exact hu.batch (fun w hw => ha (mem_targets_of_target? (target?_of_writes hws w hw))) happly

/-- Neither steps in a row nor a single step write more than their targets. -/
theorem steps_write {t : Trace} :
    (∀ as u, targetsAll as ⊆ names → Writes names t u →
      Yields (fun f : Failure => Writes names t f.trace)
        (fun r => Writes names t r.1 ∧ ∀ c, r.2 = some c → targetsAll c.steps ⊆ names)
        (runSequence locals as u)) ∧
      ∀ a u, targets a ⊆ names → Writes names t u →
        Yields (fun f : Failure => Writes names t f.trace)
          (fun r => Writes names t r.1 ∧ ∀ x, r.2 = some x → targetsAll x.2 ⊆ names)
          (runStep locals a u) := by
  refine runSequence.mutual_induct _ _ ?delay ?sequence ?leaf ?nil ?cons
  case delay =>
    intro ms u _ hu
    refine ⟨hu, fun x hx => ?_⟩
    obtain rfl := Option.some.inj hx
    exact List.nil_subset _
  case sequence =>
    intro steps u ih ha hu
    rw [runStep]
    refine (ih ha hu).bind fun r hr => ⟨hr.1, fun x hx => ?_⟩
    obtain ⟨c, hc, rfl⟩ := Option.map_eq_some_iff.1 hx
    exact hr.2 c hc
  case leaf =>
    intro leaf u hdelay hsequence ha hu
    rw [runStep.eq_3 locals leaf u hdelay hsequence]
    exact (runLeaf_writes locals ha hu).bind fun v hv => ⟨hv, fun x hx => by cases hx⟩
  case nil => exact fun u _ hu => ⟨hu, fun c hc => by cases hc⟩
  case cons =>
    intro a as u ih ihs has hu
    rw [targetsAll, List.append_subset] at has
    rw [runSequence]
    refine (ih has.1 hu).bind ?_
    rintro ⟨v, suspended⟩ ⟨hv, hrest⟩
    cases suspended with
    | none => exact ihs v has.2 hv
    | some x =>
      obtain ⟨ms, rest⟩ := x
      refine ⟨hv, fun c hc => ?_⟩
      obtain rfl := Option.some.inj hc
      refine targetsAll_subset_iff.2 (List.forall_mem_append.2 ⟨?_, ?_⟩)
      · exact targetsAll_subset_iff.1 (hrest _ rfl)
      · exact targetsAll_subset_iff.1 has.2

theorem runSequence_writes {as : List Action} (has : targetsAll as ⊆ names) {t u : Trace}
    (hu : Writes names t u) :
    Yields (fun f : Failure => Writes names t f.trace)
      (fun r => Writes names t r.1 ∧ ∀ c ∈ r.2.toList, targetsAll c.steps ⊆ names)
      (runSequence locals as u) :=
  ((steps_write locals).1 as u has hu).mono fun _ hr =>
    ⟨hr.1, fun c hc => hr.2 c (Option.mem_toList.1 hc)⟩

theorem run_confined {as : List Action} (has : targetsAll as ⊆ names) :
    Confined names (run locals as) := by
  intro t u hu
  fun_induction run locals as u with
  | case1 u => exact ⟨hu, List.forall_mem_nil _⟩
  | case2 ms rest u =>
    rw [targetsAll, List.append_subset] at has
    exact ⟨hu, List.forall_mem_singleton.2 has.2⟩
  | case3 steps rest u ih =>
    rw [targetsAll, List.append_subset] at has
    refine (runSequence_writes locals has.1 hu).bind fun r hr => ?_
    refine (ih r.1 has.2 hr.1).bind fun r' hr' => ⟨hr'.1, ?_⟩
    exact List.forall_mem_append.2 ⟨hr.2, hr'.2⟩
  | case4 leaf rest u _ _ ih =>
    rw [targetsAll, List.append_subset] at has
    exact (runLeaf_writes locals has.1 hu).bind fun v hv => ih v has.2 hv

end Action

/-- A sequence that goes on writes no more than its targets either. -/
theorem Continuation.resume_confined {names : List String} {c : Continuation}
    (hc : Action.targetsAll c.steps ⊆ names) : Confined names c.resume :=
  fun _ _ hu => (Action.runSequence_writes c.locals hc hu).bind fun _ hr => hr

end Archipelago
