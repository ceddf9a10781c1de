import Archipelago.Proofs.Scheduler
import Mathlib.Algebra.BigOperators.Group.List.Basic
import Mathlib.Data.List.MinMax

/-!
# Timers that come due

The next timer is the first of all that are live, so it does not matter up to which time one asks as
long as it is due by then. As time moves on only from one timer to the next, and new timers are due
later than now or run only once, every timer that is live is due now or later.
-/

namespace Archipelago

universe u

variable {α : Type u}

namespace Timer

theorem before_iff {s t : Timer α} :
    s.before t = true ↔ s.due < t.due ∨ s.due = t.due ∧ s.id < t.id := by
  simp [before]

/-- Of two timers with names of their own one is before the other. -/
theorem eq_of_not_before {ts : List (Timer α)} (hts : (ts.map (·.id)).Nodup) {s t : Timer α}
    (hs : s ∈ ts) (ht : t ∈ ts) (hst : ¬ s.before t = true) (hts' : ¬ t.before s = true) :
    s = t := by
  rw [before_iff] at hst hts'
  exact List.inj_on_of_nodup_map hts hs ht (by omega)

end Timer

namespace Scheduler

/-! ## The next timer -/

section Next

variable {ts : List (Timer α)} {time : Nat} {t : Timer α}

theorem nextDue?_eq_foldl (ts : List (Timer α)) (time : Nat) :
    nextDue? ts time = (ts.filter (·.due ≤ time)).foldl
      (List.argAux fun s t => s.before t = true) none := by
  unfold nextDue?
  congr 1
  funext best t
  cases best with
  | none => rfl
  | some b => rfl

theorem nextDue?_eq_none : nextDue? ts time = none ↔ ∀ t ∈ ts, time < t.due := by
  rw [nextDue?_eq_foldl, List.foldl_argAux_eq_none, List.filter_eq_nil_iff]
  simp

/-- What is best in the end has been there from the start or is in the list. -/
theorem mem_of_foldl_argAux {r : Timer α → Timer α → Prop} [DecidableRel r]
    {best : Option (Timer α)}
    (h : ts.foldl (List.argAux r) best = some t) : best = some t ∨ t ∈ ts := by
  induction ts generalizing best with
  | nil => exact .inl h
  | cons u ts ih =>
    obtain hbest | ht := ih h
    · cases best with
      | none => exact .inr (Option.some.inj hbest ▸ List.mem_cons_self)
      | some b =>
        simp only [List.argAux] at hbest
        split at hbest
        · exact .inr (Option.some.inj hbest ▸ List.mem_cons_self)
        · exact .inl hbest
    · exact .inr (List.mem_cons_of_mem u ht)

/-- The next timer is due, and no other one that is due is before it. -/
theorem of_nextDue? (h : nextDue? ts time = some t) :
    t ∈ ts ∧ t.due ≤ time ∧ ∀ u ∈ ts, u.due ≤ time → ¬ u.before t = true := by
  rw [nextDue?_eq_foldl] at h
  have hirrefl : Std.Irrefl fun s t : Timer α => s.before t = true :=
    ⟨fun s hs => by rw [Timer.before_iff] at hs; omega⟩
  have htrans : IsTrans (Timer α) fun s t => s.before t = true :=
    ⟨fun s t u hst htu => by rw [Timer.before_iff] at *; omega⟩
  obtain hnone | hmem := mem_of_foldl_argAux h
  · cases hnone
  · obtain ⟨hts, hdue⟩ := List.mem_filter.1 hmem
    exact ⟨hts, of_decide_eq_true hdue, fun u hu hle =>
      List.not_of_mem_foldl_argAux _ hirrefl htrans
        (List.mem_filter.2 ⟨hu, decide_eq_true hle⟩) h⟩

/-- The next timer is due before all others, those included that are not due yet. -/
theorem due_le_of_nextDue? (h : nextDue? ts time = some t) : ∀ u ∈ ts, t.due ≤ u.due := by
  obtain ⟨-, hdue, hfirst⟩ := of_nextDue? h
  intro u hu
  by_cases hle : u.due ≤ time
  · have := hfirst u hu hle
    rw [Timer.before_iff] at this
    omega
  · omega

/-- The next timer up to a time is the next one up to any later time. -/
theorem nextDue?_mono (hts : (ts.map (·.id)).Nodup) {later : Nat} (hle : time ≤ later)
    (h : nextDue? ts time = some t) : nextDue? ts later = some t := by
  obtain ⟨ht, hdue, hfirst⟩ := of_nextDue? h
  cases hnext : nextDue? ts later with
  | none => exact absurd (nextDue?_eq_none.1 hnext t ht) (by omega)
  | some u =>
    obtain ⟨hu, -, hfirst'⟩ := of_nextDue? hnext
    have hut : u.due ≤ t.due := due_le_of_nextDue? hnext t ht
    exact congrArg some (Timer.eq_of_not_before hts hu ht (hfirst u hu (hut.trans hdue))
      (hfirst' t ht (hdue.trans hle)))

end Next

/-! ## Timers that are popped -/

section Pop

variable {s s' : Scheduler α} {time : Nat} {t : Timer α}

theorem pop_eq_none (h : s.pop time = (s', none)) :
    (∀ t ∈ s.live, time < t.due) ∧ s' = { s with timers := s.live } := by
  unfold pop at h
  dsimp only at h
  split at h
  · cases (Prod.mk.inj h).2
  · rename_i hnext
    exact ⟨nextDue?_eq_none.1 hnext, (Prod.mk.inj h).1.symm⟩

theorem pop_eq_some (h : s.pop time = (s', some t)) :
    nextDue? s.live time = some t ∧
      s' = { s with timers := fired t s.live, now := max s.now t.due } := by
  unfold pop at h
  dsimp only at h
  split at h
  · rename_i hnext
    obtain ⟨rfl, ht⟩ := Prod.mk.inj h
    obtain rfl := Option.some.inj ht
    exact ⟨hnext, rfl⟩
  · cases (Prod.mk.inj h).2

theorem pop_of_nextDue? (h : nextDue? s.live time = some t) :
    s.pop time = ({ s with timers := fired t s.live, now := max s.now t.due }, some t) := by
  unfold pop
  dsimp only
  rw [h]

theorem live_of_all {ts : List (Timer α)} (now : Nat) (h : ∀ t ∈ ts, s.isLive t = true) :
    ({ s with timers := ts, now } : Scheduler α).live = ts := List.filter_eq_self.2 h

theorem live_live (s : Scheduler α) : ({ s with timers := s.live } : Scheduler α).live = s.live :=
  live_of_all s.now fun _ ht => (List.mem_filter.1 ht).2

theorem live_fired (s : Scheduler α) (t : Timer α) (now : Nat) :
    ({ s with timers := fired t s.live, now } : Scheduler α).live = fired t s.live :=
  live_of_all now (isLive_of_mem_fired fun _ ht => (List.mem_filter.1 ht).2)

/-- To ask in vain for an earlier time changes nothing about what is due later. -/
theorem pop_of_pop_eq_none {later : Nat} (h : s.pop time = (s', none)) :
    s'.pop later = s.pop later := by
  obtain ⟨-, rfl⟩ := pop_eq_none h
  unfold pop
  rw [live_live]

/-- Time can move on before a timer is asked for that is due later than that. -/
theorem pop_advanceTo {first : Nat} (hdue : ∀ t ∈ s.live, first < t.due) (time : Nat) :
    (s.advanceTo first).pop time =
      match s.pop time with
      | (s', some t) => (s', some t)
      | (s', none) => (s'.advanceTo first, none) := by
  have hlive : (s.advanceTo first).live = s.live := rfl
  unfold pop
  rw [hlive]
  dsimp only
  cases hnext : nextDue? s.live time with
  | none => rfl
  | some t =>
    have hmax : max (max s.now first) t.due = max s.now t.due := by
      rw [max_assoc, max_eq_right (hdue t (of_nextDue? hnext).1).le]
    simp only [advanceTo, hmax]

/-- A timer is what it was, or it is the one that has been put off. -/
theorem mem_fired {ts : List (Timer α)} {u : Timer α} (h : u ∈ fired t ts) :
    u ∈ ts ∨ ∃ v ∈ ts, v.id = t.id ∧ ∃ period, v.period = some period ∧
      u = { v with due := laterBy v.due period } := by
  induction ts with
  | nil => exact .inl h
  | cons v ts ih =>
    unfold fired at h
    split at h
    · rename_i hid
      split at h
      · rename_i period hperiod
        obtain rfl | hu := List.mem_cons.1 h
        · exact .inr ⟨v, List.mem_cons_self, hid, period, hperiod, rfl⟩
        · exact .inl (List.mem_cons_of_mem v hu)
      · exact .inl (List.mem_cons_of_mem v h)
    · obtain rfl | hu := List.mem_cons.1 h
      · exact .inl List.mem_cons_self
      · obtain hu | ⟨w, hw, hput⟩ := ih hu
        · exact .inl (List.mem_cons_of_mem v hu)
        · exact .inr ⟨w, List.mem_cons_of_mem v hw, hput⟩

theorem ids_fired (t : Timer α) (ts : List (Timer α)) :
    ((fired t ts).map (·.id)).Sublist (ts.map (·.id)) := by
  induction ts with
  | nil => exact .refl _
  | cons u ts ih =>
    unfold fired
    split
    · split
      · exact .refl _
      · exact List.sublist_cons_self _ _
    · exact ih.cons_cons u.id

/-- Timers are left as they are if neither the one that is popped nor what it becomes is among
them. -/
theorem filter_fired_of_not {ts : List (Timer α)} {p : Timer α → Bool}
    (h : ∀ u ∈ ts, u.id = t.id → p u = false ∧ ∀ due, p { u with due } = false) :
    (fired t ts).filter p = ts.filter p := by
  induction ts with
  | nil => rfl
  | cons u ts ih =>
    obtain ⟨hu, hts⟩ := List.forall_mem_cons.1 h
    unfold fired
    split
    · rename_i hid
      obtain ⟨hold, hput⟩ := hu hid
      split
      · rw [List.filter_cons_of_neg (by rw [hput]; exact Bool.false_ne_true),
          List.filter_cons_of_neg (by rw [hold]; exact Bool.false_ne_true)]
      · rw [List.filter_cons_of_neg (by rw [hold]; exact Bool.false_ne_true)]
    · rw [List.filter_cons, List.filter_cons, ih hts]

theorem Numbered.fired (h : s.Numbered) (t : Timer α) (now : Nat) :
    ({ s with timers := Scheduler.fired t s.live, now } : Scheduler α).Numbered := by
  refine h.of_sublist ?_ rfl
  rw [live_fired]
  exact ids_fired t s.live

theorem Numbered.pop (h : s.Numbered) (time : Nat) : (s.pop time).1.Numbered := by
  cases hpop : s.pop time with
  | mk s' next =>
    cases next with
    | none =>
      obtain ⟨-, rfl⟩ := pop_eq_none hpop
      exact h.of_sublist (by rw [live_live]) rfl
    | some t =>
      obtain ⟨-, rfl⟩ := pop_eq_some hpop
      exact h.fired t _

/-- Of what is due by some time, the popped timer is gone if it is put off beyond that. -/
theorem filter_fired {ts : List (Timer α)} {now : Nat} (hts : (ts.map (·.id)).Nodup)
    (hput : ∀ u ∈ ts, u.id = t.id → ∀ period ∈ u.period, now < laterBy u.due period) :
    (fired t ts).filter (·.due ≤ now) = (ts.filter (·.due ≤ now)).filter (·.id ≠ t.id) := by
  induction ts with
  | nil => rfl
  | cons u ts ih =>
    obtain ⟨hu, hts⟩ := List.nodup_cons.1 hts
    unfold fired
    split
    · rename_i hid
      have hrest : (ts.filter (·.due ≤ now)).filter (·.id ≠ t.id) = ts.filter (·.due ≤ now) := by
        refine List.filter_eq_self.2 fun v hv => decide_eq_true fun he => hu ?_
        exact List.mem_map.2 ⟨v, (List.mem_filter.1 hv).1, he.trans hid.symm⟩
      have hcons : ((u :: ts).filter (·.due ≤ now)).filter (·.id ≠ t.id) =
          (ts.filter (·.due ≤ now)).filter (·.id ≠ t.id) := by
        rw [List.filter_cons]
        split
        · exact List.filter_cons_of_neg (by simp [hid])
        · rfl
      rw [hcons, hrest]
      split
      · rename_i period hperiod
        have := hput u List.mem_cons_self hid period hperiod
        exact List.filter_cons_of_neg (by simpa using this)
      · rfl
    · rename_i hid
      have ih := ih hts fun v hv => hput v (List.mem_cons_of_mem u hv)
      rw [List.filter_cons, List.filter_cons, ih]
      split
      · rw [List.filter_cons_of_pos (by simpa using hid)]
      · rfl

end Pop

end Scheduler
end Archipelago
