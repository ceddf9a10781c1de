import Archipelago.Action.Run
import Archipelago.Proofs.Store.Frame

/-!
# What a run of actions can do to a store

A run writes by batches only, one on what the other left, whether it ends well or not. So all that
a batch keeps is kept by a run, and what changes on the way is told to the subscribers.
-/

namespace Archipelago

/-! ## Subscribers -/

namespace Store

/-- Every variable has a subscription. -/
def Heard (s : Store) : Prop := ∀ name ∈ s.names, ∃ id, (id, name) ∈ s.subscriptions

theorem Heard.of_frame {s t : Store} (h : s.Heard) (hf : s.frame = t.frame) : t.Heard := by
  intro name hn
  rw [← names_eq hf] at hn
  rw [← subscriptions_eq hf]
  exact h name hn

/-- A change of a variable that has a subscription is told. -/
theorem Heard.mem_notices {s : Store} (h : s.Heard) {changed : List String} {name : String}
    (hc : name ∈ changed) (hn : name ∈ s.names) : name ∈ (s.notices changed).map (·.name) := by
  obtain ⟨id, hid⟩ := h name hn
  obtain ⟨v, hv⟩ := Dict.mem_keys_iff.1 hn
  refine List.mem_map.2 ⟨⟨id, name, v.value⟩, List.mem_flatMap.2 ⟨name, hc, ?_⟩, rfl⟩
  simp only [hv, List.mem_map]
  exact ⟨(id, name), List.mem_filter.2 ⟨hid, by simp⟩, rfl⟩

end Store

/-! ## Batches in a row -/

namespace Trace

/-- One trace goes on from another by batches. -/
inductive Reaches : Trace → Trace → Prop where
  | refl (t : Trace) : Reaches t t
  | batch {t u : Trace} {ws : List Write} {s : Store} {c : Commit} :
      Reaches t u → u.store.apply ws = .ok (s, c) → Reaches t (u.add s c)

namespace Reaches

variable {t u v : Trace}

theorem trans (h : Reaches t u) (h' : Reaches u v) : Reaches t v := by
  induction h' with
  | refl => exact h
  | batch _ ha ih => exact .batch ih ha

/-- What every batch keeps is kept by a run. -/
theorem preserves {P : Store → Prop}
    (hP : ∀ s s' ws c, P s → s.apply ws = .ok (s', c) → P s') (h : Reaches t u) (ht : P t.store) :
    P u.store := by
  induction h with
  | refl => exact ht
  | batch _ ha ih => exact hP _ _ _ _ ih ha

theorem frame (h : Reaches t u) : u.store.frame = t.store.frame :=
  h.preserves (P := fun s => s.frame = t.store.frame)
    (fun _ _ _ _ hs ha => (Store.apply_tracks ha).frame.trans hs) rfl

/-- A variable that nobody is told of is the very same. -/
theorem get?_of_silent (h : Reaches t u) (ht : t.store.Heard) {name : String}
    (hn : name ∉ u.notices.map (·.name)) :
    Dict.get? u.store.vars name = Dict.get? t.store.vars name := by
  induction h with
  | refl => rfl
  | @batch u ws s c hu ha ih =>
    have hsilent : name ∉ u.notices.map (·.name) ∧ name ∉ c.notices.map (·.name) := by
      simpa [add, not_or] using hn
    have htracks := Store.apply_tracks ha
    have hframe : s.frame = t.store.frame := htracks.frame.trans hu.frame
    obtain ⟨-, -, -, hnotices⟩ := Store.apply_eq_ok ha
    by_cases hs : name ∈ s.names
    · have hc : name ∉ c.changed := fun hc =>
        hsilent.2 (hnotices ▸ (ht.of_frame hframe.symm).mem_notices hc hs)
      exact (htracks.kept name hc).trans (ih hsilent.1)
    · have ht' : name ∉ t.store.names := by rwa [← Store.names_eq hframe]
      exact (Dict.get?_eq_none_iff.2 hs).trans (Dict.get?_eq_none_iff.2 ht').symm

end Reaches

end Trace

/-! ## Runs -/

/-- How far a run has come, be it at its end or at a failure. -/
def lastTrace {α : Type} (trace : α → Trace) : Except Failure α → Trace
  | .ok a => trace a
  | .error f => f.trace

namespace Trace

/-- Two runs in a row. -/
theorem Reaches.bind {α β : Type} {f : α → Trace} {g : β → Trace} {t : Trace}
    {x : Except Failure α} {k : α → Except Failure β} (hx : Reaches t (lastTrace f x))
    (hk : ∀ a, x = .ok a → Reaches (f a) (lastTrace g (k a))) :
    Reaches t (lastTrace g (x >>= k)) := by
  cases x with
  | error e => exact hx
  | ok a => exact hx.trans (hk a rfl)

end Trace

namespace Action

open Trace (Reaches)

theorem runLeaf_reaches (locals : Dict Value) (a : Action) (t : Trace) :
    Reaches t (lastTrace id (runLeaf locals a t)) := by
  unfold runLeaf
  split
  · exact .refl t
  · split
    · exact .refl t
    · rename_i happly
      exact .batch (.refl t) happly

/-- Neither steps in a row nor a single step do more to a store than batches. -/
theorem steps_reach (locals : Dict Value) :
    (∀ as t, Reaches t (lastTrace Prod.fst (runSequence locals as t))) ∧
      ∀ a t, Reaches t (lastTrace Prod.fst (runStep locals a t)) := by
  refine runSequence.mutual_induct _ _ ?delay ?sequence ?leaf ?nil ?cons
  case delay => exact fun ms t => .refl t
  case sequence =>
    intro steps t ih
    rw [runStep]
    exact ih.bind fun r _ => .refl r.1
  case leaf =>
    intro leaf t hdelay hsequence
    rw [runStep.eq_3 locals leaf t hdelay hsequence]
    exact (runLeaf_reaches locals leaf t).bind fun u _ => .refl u
  case nil => exact fun t => .refl t
  case cons =>
    intro a as t ha has
    rw [runSequence]
    refine ha.bind ?_
    rintro ⟨u, suspended⟩ -
    cases suspended with
    | some rest => exact .refl u
    | none => exact has u

theorem runSequence_reaches (locals : Dict Value) (as : List Action) (t : Trace) :
    Reaches t (lastTrace Prod.fst (runSequence locals as t)) :=
  (steps_reach locals).1 as t

theorem run_reaches (locals : Dict Value) (as : List Action) (t : Trace) :
    Reaches t (lastTrace Prod.fst (run locals as t)) := by
  fun_induction run locals as t with
  | case1 t => exact .refl t
  | case2 ms rest t => exact .refl t
  | case3 steps rest t ih =>
    refine (runSequence_reaches locals steps t).bind ?_
    rintro ⟨u, suspended⟩ -
    exact (ih u).bind fun r _ => .refl r.1
  | case4 leaf rest t _ _ ih =>
    exact (runLeaf_reaches locals leaf t).bind fun u _ => ih u

end Action

theorem Continuation.resume_reaches (c : Continuation) (t : Trace) :
    t.Reaches (lastTrace Prod.fst (c.resume t)) :=
  (Action.runSequence_reaches c.locals c.steps t).bind fun r _ => .refl r.1

end Archipelago
