import Archipelago.Proofs.Action.Sequence
import Archipelago.Proofs.Action.Trace
import Archipelago.Proofs.Store.Coherent

/-!
# Stores with a history

All that can be asked of a store from its beginning on: to be set up, to declare, to do something,
to subscribe and to unsubscribe, in any order and each of them with success or without. What no
request undoes is an order of the computed variables that has each of them once.
-/

namespace Archipelago

/-! ## What declarations keep -/

namespace Store

variable {s t : Store}

/-- What a declaration adds, over limits that need not be those of earlier ones: its variable, and a
new order if it is computed. -/
theorem frame_declare {load : String → Option String} {d : VariableDecl}
    (h : s.declare load d = .ok t) : ∃ expr value order, s.parseComputed d = .ok expr ∧
      (order = s.computedOrder ∨
        (graph (Dict.insert s.vars d.name ⟨d, value, expr⟩)).order = .ok order) ∧
      t.frame = { s with
        vars := Dict.insert s.vars d.name ⟨d, value, expr⟩, computedOrder := order }.frame := by
  unfold declare at h
  split at h
  · cases h
  · obtain ⟨expr, hexpr, h⟩ := bind_eq_ok.1 h
    obtain ⟨value, -, h⟩ := bind_eq_ok.1 h
    refine ⟨expr, value, ?_⟩
    dsimp only at h
    split at h
    · obtain rfl := Except.ok.inj h
      exact ⟨s.computedOrder, hexpr, .inl rfl, rfl⟩
    · split at h
      · cases h
      · rename_i order horder
        obtain rfl := Except.ok.inj h
        exact ⟨order, hexpr, .inr horder, frame_recomputed _ d.name⟩

/-- The computed variables stand in the order once each, and no write reaches them. -/
structure Ordered (s : Store) : Prop where
  nodup : s.computedOrder.Nodup
  readOnly : ∀ name v, Dict.get? s.vars name = some v → v.expr.isSome →
    v.decl.type.isReadOnly = true

namespace Ordered

/-- What can be written is not computed. -/
theorem expr_eq_none (h : s.Ordered) {name : String} {v : Variable}
    (hv : Dict.get? s.vars name = some v) (hwritable : v.decl.type.isReadOnly = false) :
    v.expr = none := by
  by_contra hne
  rw [h.readOnly name v hv (Option.isSome_iff_ne_none.2 hne)] at hwritable
  cases hwritable

theorem of_frame (h : s.Ordered) (hf : s.frame = t.frame) : t.Ordered where
  nodup := computedOrder_eq hf ▸ h.nodup
  readOnly name v hv he := by
    obtain ⟨w, hw, hdecl, hexpr⟩ := get?_of_frame hf.symm hv
    rw [hdecl]
    exact h.readOnly name w hw (hexpr ▸ he)

theorem declare (h : s.Ordered) {load : String → Option String} {d : VariableDecl}
    (hd : s.declare load d = .ok t) : t.Ordered := by
  obtain ⟨expr, value, order, hexpr, horder, hframe⟩ := frame_declare hd
  refine of_frame ⟨?_, fun name v hv he => ?_⟩ hframe.symm
  · rcases horder with rfl | horder
    · exact h.nodup
    · exact (Dependency.Graph.isOrder_of_order horder).nodup
  · rw [Dict.get?_insert] at hv
    split at hv
    · obtain rfl := Option.some.inj hv
      obtain ⟨e, rfl⟩ := Option.isSome_iff_exists.1 he
      rw [(parseComputed_eq_some hexpr).1]
      rfl
    · exact h.readOnly name v hv he

end Ordered

end Store

namespace LiveStore

/-!
## All that is done to a store that stands

Batches, single actions, firings and what these have suspended: each of them makes a series of
batches, and one that fails on the way has made some of them. So what every batch keeps of a store,
its storage and its subscribers is kept by whatever is done.
-/

open Trace (Reaches)

/-- What can be done to a store once its variables are declared. -/
inductive Deed where
  | apply (ws : List Write)
  | set (name : String) (value : Value)
  | reset (name : String)
  /-- One action, up to its first delay. -/
  | execute (locals : Dict Value) (a : Action)
  | run (locals : Dict Value) (as : List Action)
  | resume (c : Continuation)

namespace Deed

/-- What a deed leaves, whether it has failed or not. -/
def perform (l : LiveStore) : Deed → LiveStore
  | apply ws => ((LiveStore.apply ws).run l).2
  | set name value => ((LiveStore.set name value).run l).2
  | reset name => ((LiveStore.reset name).run l).2
  | execute locals a => (l.fire fun t => (a.runStep locals t).map fun r => (r.1, [])).2
  | run locals as => (l.fire (Action.run locals as)).2
  | resume c => (l.fire c.resume).2

end Deed

/-- Performs the deeds, first to last. -/
def performAll (l : LiveStore) (deeds : List Deed) : LiveStore := deeds.foldl Deed.perform l

/-! ## Deeds as batches -/

/-- A firing leaves what its trace has reached. -/
theorem fire_eq (l : LiveStore) (run : Trace → Outcome) :
    (l.fire run).2 = l.afterTrace (lastTrace Prod.fst (run { store := l.kept.store })) := by
  unfold fire
  cases run { store := l.kept.store } with
  | ok r => rfl
  | error f => rfl

theorem Deed.perform_reaches (l : LiveStore) (deed : Deed) :
    ∃ t, Reaches { store := l.kept.store } t ∧ deed.perform l = l.afterTrace t := by
  have happly (ws : List Write) : ∃ t, Reaches { store := l.kept.store } t ∧
      ((LiveStore.apply ws).run l).2 = l.afterTrace t := by
    rw [run_apply]
    cases h : l.kept.store.apply ws with
    | error e => exact ⟨_, .refl _, (l.afterTrace_start).symm⟩
    | ok r => exact ⟨_, .batch (.refl _) h, rfl⟩
  cases deed with
  | apply ws => exact happly ws
  | set name value => exact happly [.set name value]
  | reset name => exact happly [.reset name]
  | execute locals a =>
    refine ⟨_, ?_, l.fire_eq _⟩
    have hstep := (Action.steps_reach locals).2 a { store := l.kept.store }
    cases h : a.runStep locals { store := l.kept.store } with
    | ok r => rwa [h] at hstep
    | error f => rwa [h] at hstep
  | run locals as => exact ⟨_, Action.run_reaches locals as _, l.fire_eq _⟩
  | resume c => exact ⟨_, c.resume_reaches _, l.fire_eq _⟩

theorem afterTrace_add (l : LiveStore) {t : Trace} {ws : List Write} {s : Store} {c : Commit}
    (h : t.store.apply ws = .ok (s, c)) :
    l.afterTrace (t.add s c) = (l.afterTrace t).after s c.saves c.notices :=
  (l.after_after (Store.scope_eq (Store.apply_tracks h).frame) _ _ _ _).symm

section Preserves

variable {P : LiveStore → Prop}
  (happly : ∀ l ws s c, P l → l.kept.store.apply ws = .ok (s, c) → P (l.after s c.saves c.notices))
include happly

/-- What every batch keeps is kept by a deed, also by one that fails on the way. -/
theorem Deed.keeps {l : LiveStore} (h : P l) (deed : Deed) : P (deed.perform l) := by
  obtain ⟨t, hreach, heq⟩ := deed.perform_reaches l
  rw [heq]
  clear heq
  induction hreach with
  | refl => rwa [afterTrace_start]
  | @batch u ws s c _ hbatch ih =>
    rw [afterTrace_add l hbatch]
    exact happly _ ws s c ih hbatch

theorem performAll_keeps {l : LiveStore} (h : P l) (deeds : List Deed) :
    P (l.performAll deeds) := by
  induction deeds generalizing l with
  | nil => exact h
  | cons deed deeds ih => exact ih (deed.keeps happly h)

end Preserves

/-- No deed changes more of a store than values. -/
theorem frame_performAll (l : LiveStore) (deeds : List Deed) :
    (l.performAll deeds).kept.store.frame = l.kept.store.frame :=
  performAll_keeps (P := fun l' => l'.kept.store.frame = l.kept.store.frame)
    (fun _ _ _ _ h hbatch => (Store.apply_tracks hbatch).frame.trans h) rfl deeds

/-! ## Requests -/

variable {l : LiveStore}

/-- What a store can be asked for. -/
inductive Request where
  /-- What it reads and is kept in may be anything from here on. -/
  | equip (params : Dict String) (resident : Value) (limits : EvalLimits) (scope : String)
      (storage : Option Storage)
  | declare (d : VariableDecl)
  | deed (d : Deed)
  | subscribe (name : String)
  | unsubscribe (id : Nat)

namespace Request

/-- What a request leaves, whether it is granted or not. -/
def perform (l : LiveStore) : Request → LiveStore
  | equip params resident limits scope storage =>
    { l with kept := ⟨{ l.kept.store with params, resident, limits, scope }, storage⟩ }
  | declare d => ((LiveStore.declare d).run l).2
  | deed d => d.perform l
  | subscribe name =>
    match l.kept.store.subscribe name with
    | .ok (s, _) => l.withStore s
    | .error _ => l
  | unsubscribe id => l.withStore (l.kept.store.unsubscribe id).1

/-- Who subscribes gets the next number, if the variable is there. -/
theorem perform_subscribe (l : LiveStore) (name : String) :
    (subscribe name).perform l = if l.kept.store.contains name then l.withStore
        { l.kept.store with
          subscriptions := l.kept.store.subscriptions ++ [(l.kept.store.nextSubscription, name)]
          nextSubscription := l.kept.store.nextSubscription + 1 }
      else l := by
  show (match l.kept.store.subscribe name with | .ok (s, _) => l.withStore s | .error _ => l) = _
  unfold Store.subscribe
  by_cases hc : l.kept.store.contains name = true
  · rw [if_pos hc, if_pos hc]
  · rw [if_neg hc, if_neg hc]

theorem ordered_perform (h : l.kept.store.Ordered) (r : Request) :
    (r.perform l).kept.store.Ordered := by
  cases r with
  | equip params resident limits scope storage => exact ⟨h.nodup, h.readOnly⟩
  | declare d =>
    show ((LiveStore.declare d).run l).2.kept.store.Ordered
    rw [run_declare]
    cases hd : l.kept.store.declare l.kept.load d with
    | error e => exact h
    | ok s => exact h.declare hd
  | deed d =>
    exact d.keeps (P := fun l => l.kept.store.Ordered)
      (fun l ws s c h hbatch => h.of_frame (Store.apply_tracks hbatch).frame.symm) h
  | subscribe name =>
    rw [perform_subscribe]
    split
    · exact ⟨h.nodup, h.readOnly⟩
    · exact h
  | unsubscribe id => exact ⟨h.nodup, h.readOnly⟩

end Request

/-- Performs the requests, first to last. -/
def serve (l : LiveStore) (history : List Request) : LiveStore := history.foldl Request.perform l

/-- A store that nothing has been asked of. -/
structure Blank (l : LiveStore) : Prop where
  vars : l.kept.store.vars = []
  computedOrder : l.kept.store.computedOrder = []
  subscriptions : l.kept.store.subscriptions = []

theorem Blank.ordered (h : l.Blank) : l.kept.store.Ordered where
  nodup := h.computedOrder ▸ List.nodup_nil
  readOnly name v hv := by rw [h.vars] at hv; cases hv

/-- Whatever has been asked of a store, the computed variables are in an order. -/
theorem Blank.ordered_serve (h : l.Blank) (history : List Request) :
    (l.serve history).kept.store.Ordered :=
  List.foldlRecOn history Request.perform (motive := fun l => l.kept.store.Ordered) h.ordered
    fun _ h r _ => Request.ordered_perform h r

end LiveStore

end Archipelago
