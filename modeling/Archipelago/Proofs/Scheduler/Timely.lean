import Archipelago.Proofs.Scheduler.Due
import Mathlib.Algebra.GroupWithZero.Nat
import Mathlib.Algebra.Order.BigOperators.Group.List
import Mathlib.Algebra.Order.Group.Nat

/-!
# Schedulers in time

Time moves on only to the next timer, and new timers are put behind it. So none that is live is ever
overdue. What is due now is lost one by one: a timer that is popped runs once only, or it is put
off.
-/

namespace Archipelago

universe u

variable {α : Type u}

namespace Scheduler

/-- Before time stops, whatever is put off by at least one millisecond is put off. -/
theorem lt_laterBy {now ms : Nat} (h : now < maxTime) (hms : 0 < ms) : now < laterBy now ms := by
  unfold laterBy
  omega

theorem le_laterBy {now ms : Nat} (h : now < maxTime) : now ≤ laterBy now ms := by
  unfold laterBy
  omega

/-- The live timers have names of their own and none of them is overdue. Those without a period do
what `single` says. -/
structure Timely (single : α → Prop) (s : Scheduler α) : Prop where
  nodup : (s.live.map (·.id)).Nodup
  old : ∀ t ∈ s.live, t.id < s.nextId
  due : ∀ t ∈ s.live, s.now ≤ t.due
  ticks : ∀ t ∈ s.live, ∀ period ∈ t.period, 0 < period
  single : ∀ t ∈ s.live, t.period = none → single t.payload

/-- The live timers that are due by now. -/
def ready (s : Scheduler α) : List (Timer α) := s.live.filter (·.due ≤ s.now)

/-- How much the timers weigh together that are due by now. -/
def load (weight : Timer α → Nat) (s : Scheduler α) : Nat := (s.ready.map weight).sum

theorem load_le_of_sublist {s s' : Scheduler α} (weight : Timer α → Nat)
    (h : s'.ready.Sublist s.ready) : s'.load weight ≤ s.load weight :=
  (h.map weight).sum_le_sum fun _ _ => Nat.zero_le _

/-- One timer and all others weigh as much as the timers together. -/
theorem sum_filter_ne (weight : Timer α → Nat) {ts : List (Timer α)} {t : Timer α}
    (hts : (ts.map (·.id)).Nodup) (ht : t ∈ ts) :
    (ts.map weight).sum = weight t + ((ts.filter (·.id ≠ t.id)).map weight).sum := by
  induction ts with
  | nil => cases ht
  | cons u ts ih =>
    obtain ⟨hu, hts⟩ := List.nodup_cons.1 hts
    rw [List.map_cons, List.sum_cons]
    obtain rfl | ht := List.mem_cons.1 ht
    · have hrest : ts.filter (·.id ≠ t.id) = ts := List.filter_eq_self.2 fun v hv =>
        decide_eq_true fun he => hu (List.mem_map.2 ⟨v, hv, he⟩)
      rw [List.filter_cons_of_neg (by simp), hrest]
    · have hne : u.id ≠ t.id := fun he => hu (List.mem_map.2 ⟨t, ht, he.symm⟩)
      rw [List.filter_cons_of_pos (by simpa using hne), List.map_cons, List.sum_cons, ih hts ht,
        Nat.add_left_comm]

theorem timely_empty (single : α → Prop) : ({} : Scheduler α).Timely single :=
  ⟨List.nodup_nil, List.forall_mem_nil _, List.forall_mem_nil _, List.forall_mem_nil _,
    List.forall_mem_nil _⟩

/-! ## Timers that go -/

namespace Timely

variable {single : α → Prop} {s s' : Scheduler α} (h : s.Timely single)
include h

theorem numbered : s.Numbered := ⟨h.nodup, h.old⟩

theorem of_sublist (hlive : s'.live.Sublist s.live) (hnext : s'.nextId = s.nextId)
    (hdue : ∀ t ∈ s'.live, s'.now ≤ t.due) : s'.Timely single where
  nodup := (h.numbered.of_sublist (hlive.map _) hnext).nodup
  old := (h.numbered.of_sublist (hlive.map _) hnext).old
  due := hdue
  ticks t ht := h.ticks t (hlive.subset ht)
  single t ht := h.single t (hlive.subset ht)

theorem cancel (id : Nat) : (s.cancel id).1.Timely single := by
  have hlive := live_cancel s id ▸ List.filter_sublist
  exact h.of_sublist hlive rfl fun t ht => h.due t (hlive.subset ht)

theorem cancelToken (token : Token) : (s.cancelToken token).Timely single := by
  have hlive := live_cancelToken s token ▸ List.filter_sublist
  exact h.of_sublist hlive rfl fun t ht => h.due t (hlive.subset ht)

end Timely

/-! ## New timers -/

theorem ready_add (s : Scheduler α) (due : Nat) (period : Option Nat) (token : Token)
    (payload : α) :
    (s.add due period token payload).1.ready = s.ready ++
      ([⟨s.nextId, due, period, token, payload⟩].filter s.isLive).filter (·.due ≤ s.now) := by
  unfold ready
  rw [live_add]
  exact List.filter_append ..

theorem Timely.add {single : α → Prop} {s : Scheduler α} (h : s.Timely single) {due : Nat}
    {period : Option Nat} (token : Token) {payload : α} (hdue : s.now ≤ due)
    (hticks : ∀ p ∈ period, 0 < p) (hsingle : period = none → single payload) :
    (s.add due period token payload).1.Timely single := by
  have hnumbered := h.numbered.add due period token payload
  refine ⟨hnumbered.nodup, hnumbered.old, fun t ht => ?_, fun t ht => ?_, fun t ht => ?_⟩
  · obtain ht | rfl := mem_live_add ht
    · exact h.due t ht
    · exact hdue
  · obtain ht | rfl := mem_live_add ht
    · exact h.ticks t ht
    · exact hticks
  · obtain ht | rfl := mem_live_add ht
    · exact h.single t ht
    · exact hsingle

theorem Timely.once {single : α → Prop} {s : Scheduler α} (h : s.Timely single)
    (hnow : s.now < maxTime) (ms : Nat) (token : Token) {payload : α} (hsingle : single payload) :
    (s.once ms token payload).1.Timely single :=
  h.add token (le_laterBy hnow) (fun _ hp => nomatch hp) fun _ => hsingle

theorem Timely.every {single : α → Prop} {s : Scheduler α} (h : s.Timely single)
    (hnow : s.now < maxTime) (ms : Nat) (token : Token) (payload : α) :
    (s.every ms token payload).1.Timely single := by
  refine h.add token (le_laterBy hnow) (fun p hp => ?_) fun hp => nomatch hp
  obtain rfl := Option.some.inj hp
  exact Nat.le_max_right ms 1

/-- A new timer that runs once adds its weight at most. -/
theorem load_once_le (weight : Timer α → Nat) (s : Scheduler α) (ms : Nat) (token : Token)
    (payload : α) : (s.once ms token payload).1.load weight ≤
      s.load weight + weight ⟨s.nextId, laterBy s.now ms, none, token, payload⟩ := by
  unfold load
  rw [once, ready_add, List.map_append, List.sum_append]
  have hsub := ((List.filter_sublist (p := fun t : Timer α => t.due ≤ s.now)).trans
    (List.filter_sublist (p := s.isLive)
      (l := [⟨s.nextId, laterBy s.now ms, none, token, payload⟩]))).map weight
  exact Nat.add_le_add_left (hsub.sum_le_sum fun _ _ => Nat.zero_le _) _

/-! ## Timers that are reset -/

/-- A scheduler comes of another one by timers that are cancelled and by new ones with a period. -/
inductive Resets : Scheduler α → Scheduler α → Prop where
  | refl (s : Scheduler α) : Resets s s
  | cancel {s t : Scheduler α} (id : Nat) : Resets s t → Resets s (t.cancel id).1
  | every {s t : Scheduler α} (ms : Nat) (token : Token) (payload : α) :
      Resets s t → Resets s (t.every ms token payload).1

namespace Resets

variable {s t u : Scheduler α}

theorem trans (h : Resets s t) (h' : Resets t u) : Resets s u := by
  induction h' with
  | refl => exact h
  | cancel id _ ih => exact .cancel id ih
  | every ms token payload _ ih => exact .every ms token payload ih

theorem now (h : Resets s t) : t.now = s.now := by
  induction h with
  | refl => rfl
  | cancel _ _ ih => exact ih
  | every _ _ _ _ ih => exact ih

theorem timely {single : α → Prop} (h : Resets s t) (hs : s.Timely single)
    (hnow : s.now < maxTime) : t.Timely single := by
  induction h with
  | refl => exact hs
  | cancel id _ ih => exact ih.cancel id
  | every ms token payload h ih => exact ih.every (h.now.symm ▸ hnow) ms token payload

/-- A timer with a period is never due at once. -/
theorem ready_sublist (h : Resets s t) (hnow : s.now < maxTime) : t.ready.Sublist s.ready := by
  induction h with
  | refl => exact .refl _
  | @cancel t id _ ih =>
    refine List.Sublist.trans ?_ ih
    exact (live_cancel t id ▸ List.filter_sublist).filter _
  | @every t ms token payload h ih =>
    have hlater : t.now < laterBy t.now (max ms 1) :=
      lt_laterBy (h.now.symm ▸ hnow) (Nat.le_max_right ms 1)
    have hnone : ([⟨t.nextId, laterBy t.now (max ms 1), some (max ms 1), token, payload⟩].filter
        t.isLive).filter (·.due ≤ t.now) = [] := by
      refine List.filter_eq_nil_iff.2 fun v hv => ?_
      obtain rfl := List.mem_singleton.1 (List.mem_filter.1 hv).1
      simpa using hlater
    rwa [Scheduler.every, ready_add, hnone, List.append_nil]

end Resets

/-! ## Time that moves on -/

namespace Timely

variable {single : α → Prop} {s s' : Scheduler α} (h : s.Timely single)
include h

/-- Time can move on to the next timer, and beyond only if none is due by then. -/
theorem advanceTo {time : Nat} (hdue : ∀ t ∈ s.live, time ≤ t.due) :
    (s.advanceTo time).Timely single :=
  h.of_sublist (.refl _) rfl fun t ht => max_le (h.due t ht) (hdue t ht)

theorem pop_none {time : Nat} (hpop : s.pop time = (s', none)) : s'.Timely single := by
  obtain ⟨-, rfl⟩ := pop_eq_none hpop
  have hlive := live_live s
  exact h.of_sublist (by rw [hlive]) rfl fun t ht => h.due t (hlive ▸ ht)

/-- Time has moved on to the timer that is popped. -/
theorem now_pop {time : Nat} {t : Timer α} (hpop : s.pop time = (s', some t)) :
    s'.now = t.due ∧ s.now ≤ t.due ∧ t.due ≤ time ∧ t ∈ s.live := by
  obtain ⟨hnext, rfl⟩ := pop_eq_some hpop
  obtain ⟨ht, hdue, -⟩ := of_nextDue? hnext
  exact ⟨max_eq_right (h.due t ht), h.due t ht, hdue, ht⟩

theorem pop_some {time : Nat} {t : Timer α} (hpop : s.pop time = (s', some t))
    (htime : time < maxTime) : s'.Timely single := by
  obtain ⟨hnow, -, hdue, -⟩ := h.now_pop hpop
  obtain ⟨hnext, rfl⟩ := pop_eq_some hpop
  have hfirst := due_le_of_nextDue? hnext
  have hlive := live_fired s t (max s.now t.due)
  have hnumbered := h.numbered.fired t (max s.now t.due)
  refine ⟨hnumbered.nodup, hnumbered.old, fun u hu => ?_, fun u hu => ?_, fun u hu => ?_⟩
  · rw [hnow]
    obtain hu | ⟨v, hv, -, p, -, rfl⟩ := mem_fired (hlive ▸ hu)
    · exact hfirst u hu
    · have := hfirst v hv
      show t.due ≤ laterBy v.due p
      unfold laterBy
      omega
  · obtain hu | ⟨v, hv, -, p, -, rfl⟩ := mem_fired (hlive ▸ hu)
    · exact h.ticks u hu
    · exact h.ticks v hv
  · obtain hu | ⟨v, hv, -, p, hperiod, rfl⟩ := mem_fired (hlive ▸ hu)
    · exact h.single u hu
    · exact fun hnone => nomatch hperiod.symm.trans hnone

/-- A timer that is popped at its time takes its weight off. -/
theorem load_pop (weight : Timer α → Nat) {time : Nat} {t : Timer α}
    (hpop : s.pop time = (s', some t)) (htime : time < maxTime) (hnow : t.due = s.now) :
    s.load weight = weight t + s'.load weight := by
  obtain ⟨-, -, hdue, ht⟩ := h.now_pop hpop
  obtain ⟨-, rfl⟩ := pop_eq_some hpop
  have hready : ({ s with timers := fired t s.live, now := max s.now t.due } : Scheduler α).ready =
      s.ready.filter (·.id ≠ t.id) := by
    unfold ready
    rw [live_fired]
    show (fired t s.live).filter (·.due ≤ max s.now t.due) = _
    rw [hnow, max_self]
    refine filter_fired h.nodup fun u hu hid period hperiod => ?_
    obtain rfl := List.inj_on_of_nodup_map h.nodup hu ht hid
    rw [← hnow]
    exact lt_laterBy (hdue.trans_lt htime) (h.ticks u hu period hperiod)
  unfold load
  rw [hready]
  exact sum_filter_ne weight (h.nodup.sublist (List.filter_sublist.map _))
    (List.mem_filter.2 ⟨ht, decide_eq_true hnow.le⟩)

end Timely

end Scheduler

end Archipelago
