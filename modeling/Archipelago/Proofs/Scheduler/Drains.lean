import Archipelago.Proofs.Scheduler.Timely
import Mathlib.Data.List.Perm.Basic
import Mathlib.Order.Bounds.Basic

/-!
# Timers that are drained

To pop a timer takes the first of its times away and leaves the others: those of a timer that is put
off are its times from the next one on. So what is popped altogether are all times at which the
timers are due, and as each pop takes the first of what is left, they come in order.
-/

namespace Archipelago

universe u

variable {α : Type u}

namespace Timer

/-- The times at which a timer is due: once, or again after each period. -/
def DueAt (t : Timer α) (time : Nat) : Prop :=
  match t.period with
  | none => time = t.due
  | some period => ∃ k, time = t.due + k * period

/-- An interval as it is after it has been popped. -/
def putOff? (t : Timer α) : Option (Timer α) :=
  t.period.map fun period => { t with due := laterBy t.due period }

/-- The timer as it is popped each time, up to a time. -/
def occurrences (time : Nat) (t : Timer α) : List (Timer α) :=
  (List.range (Scheduler.firings time t)).map fun k => { t with due := t.due + k * t.period.getD 0 }

/-- What is left of a timer after a time: a timer that is due by then is gone, or it is put off by
as many periods as it takes to go beyond. -/
def after? (time : Nat) (t : Timer α) : Option (Timer α) :=
  if time < t.due then some t
  else t.period.map fun period =>
    { t with due := laterBy t.due (((time - t.due) / period + 1) * period) }

section Times

variable {time : Nat} {t u : Timer α}

theorem occurrences_of_lt (h : time < t.due) : t.occurrences time = [] := by
  unfold occurrences Scheduler.firings
  rw [if_neg (Nat.not_le.2 h), List.range_zero, List.map_nil]

/-- An interval is due once more as long as there is time for it. -/
theorem lt_firings_iff {period k : Nat} (hperiod : t.period = some period) (hpos : 0 < period) :
    k < Scheduler.firings time t ↔ t.due + k * period ≤ time := by
  unfold Scheduler.firings
  rw [hperiod]
  split
  · rename_i hdue
    show k < (time - t.due) / period + 1 ↔ _
    rw [Nat.lt_succ_iff, Nat.le_div_iff_mul_le hpos]
    omega
  · rename_i hdue
    exact iff_of_false (Nat.not_lt_zero k) fun h => hdue (Nat.le_trans (Nat.le_add_right _ _) h)

theorem occurrences_of_single (hperiod : t.period = none) :
    t.occurrences time = if t.due ≤ time then [t] else [] := by
  obtain ⟨id, due, period, token, payload⟩ := t
  obtain rfl : period = none := hperiod
  unfold occurrences Scheduler.firings
  split
  · rfl
  · rfl

theorem mem_occurrences (hticks : ∀ period ∈ t.period, 0 < period) : u ∈ t.occurrences time ↔
    u.due ≤ time ∧ t.DueAt u.due ∧ u = { t with due := u.due } := by
  cases hperiod : t.period with
  | none =>
    have hdue : t.DueAt u.due ↔ u.due = t.due := by
      unfold DueAt
      rw [hperiod]
    rw [occurrences_of_single hperiod, hdue, ← hperiod]
    constructor
    · intro hu
      split at hu
      · obtain rfl := List.mem_singleton.1 hu
        exact ⟨‹_›, rfl, rfl⟩
      · cases hu
    · rintro ⟨hle, heq, hu⟩
      obtain rfl : u = t := by rw [hu, heq]
      rw [if_pos hle]
      exact List.mem_singleton_self u
  | some period =>
    have hpos := hticks period hperiod
    have hdue : t.DueAt u.due ↔ ∃ k, u.due = t.due + k * period := by
      unfold DueAt
      rw [hperiod]
    unfold occurrences
    rw [List.mem_map, hdue, ← hperiod]
    simp only [List.mem_range, lt_firings_iff hperiod hpos]
    constructor
    · rintro ⟨k, hk, rfl⟩
      rw [hperiod]
      exact ⟨hk, ⟨k, rfl⟩, rfl⟩
    · rintro ⟨hle, ⟨k, hk⟩, hu⟩
      refine ⟨k, hk ▸ hle, ?_⟩
      rw [hu, hk, hperiod]
      rfl

theorem le_of_dueAt {later : Nat} (h : t.DueAt later) : t.due ≤ later := by
  unfold DueAt at h
  split at h
  · exact h.symm.le
  · obtain ⟨k, rfl⟩ := h
    exact Nat.le_add_right _ _

theorem putOff?_of_interval {period : Nat} (hperiod : t.period = some period) :
    t.putOff? = some { t with due := laterBy t.due period } := by
  rw [putOff?, hperiod]
  rfl

/-- A timer that is due is popped as it is now, and then as it is when it has been put off. -/
theorem occurrences_eq (hticks : ∀ period ∈ t.period, 0 < period) (hdue : t.due ≤ time)
    (htime : time < maxTime) :
    t.occurrences time = t :: t.putOff?.toList.flatMap (occurrences time) := by
  obtain ⟨id, due, period, token, payload⟩ := t
  cases period with
  | none => exact (occurrences_of_single rfl).trans (if_pos hdue)
  | some period =>
    have hpos := hticks period rfl
    have hdue : due ≤ time := hdue
    rw [putOff?_of_interval rfl, Option.toList_some, List.flatMap_singleton]
    by_cases hnext : due + period ≤ time
    · have hlater : laterBy due period = due + period := by
        unfold laterBy
        omega
      have hfirings : Scheduler.firings time ⟨id, due, some period, token, payload⟩ =
          Scheduler.firings time ⟨id, due + period, some period, token, payload⟩ + 1 := by
        unfold Scheduler.firings
        rw [if_pos hdue, if_pos hnext]
        show (time - due) / period + 1 = (time - (due + period)) / period + 1 + 1
        rw [Nat.sub_add_eq, ← Nat.div_eq_sub_div hpos (by omega)]
      unfold occurrences
      rw [hlater, hfirings, List.range_succ_eq_map, List.map_cons, List.map_map]
      refine congrArg₂ List.cons ?_ (List.map_congr_left fun k _ => ?_)
      · show Timer.mk id (due + 0 * period) (some period) token payload = _
        rw [Nat.zero_mul, Nat.add_zero]
      · show Timer.mk id (due + (k + 1) * period) (some period) token payload =
          ⟨id, due + period + k * period, some period, token, payload⟩
        rw [Nat.succ_mul, Nat.add_comm (k * period), Nat.add_assoc]
    · have hlater : time < laterBy due period := by
        unfold laterBy
        omega
      have honce : Scheduler.firings time ⟨id, due, some period, token, payload⟩ = 1 := by
        unfold Scheduler.firings
        rw [if_pos hdue]
        show (time - due) / period + 1 = 1
        rw [Nat.div_eq_of_lt (by omega)]
      have hnone : occurrences time ⟨id, laterBy due period, some period, token, payload⟩ = [] :=
        occurrences_of_lt hlater
      rw [hnone]
      unfold occurrences
      rw [honce]
      show [Timer.mk id (due + 0 * period) (some period) token payload] = _
      rw [Nat.zero_mul, Nat.add_zero]

/-- It does not matter for what is left whether an interval has been put off already. -/
theorem after?_eq (hticks : ∀ period ∈ t.period, 0 < period) (hdue : t.due ≤ time)
    (htime : time < maxTime) : t.after? time = t.putOff?.bind (after? time) := by
  obtain ⟨id, due, period, token, payload⟩ := t
  have hdue : due ≤ time := hdue
  have hleft : after? time ⟨id, due, period, token, payload⟩ = period.map fun period =>
      ⟨id, laterBy due (((time - due) / period + 1) * period), some period, token, payload⟩ := by
    unfold after?
    rw [if_neg (Nat.not_lt.2 hdue)]
    cases period with
    | none => rfl
    | some period => rfl
  rw [hleft]
  cases period with
  | none => rfl
  | some period =>
    have hpos := hticks period rfl
    rw [putOff?_of_interval rfl, Option.bind_some, Option.map_some]
    unfold after?
    dsimp only
    by_cases hnext : due + period ≤ time
    · have hlater : laterBy due period = due + period := by
        unfold laterBy
        omega
      have hperiods : (time - due) / period = (time - (due + period)) / period + 1 := by
        rw [Nat.sub_add_eq, ← Nat.div_eq_sub_div hpos (by omega)]
      have hsum : laterBy due (((time - due) / period + 1) * period) =
          laterBy (due + period) (((time - (due + period)) / period + 1) * period) := by
        unfold laterBy
        rw [← hperiods, Nat.succ_mul]
        congr 1
        omega
      rw [hlater, if_neg (Nat.not_lt.2 hnext), hsum]
      rfl
    · have hlater : time < laterBy due period := by
        unfold laterBy
        omega
      rw [if_pos hlater, Nat.div_eq_of_lt (by omega), Nat.zero_add, Nat.one_mul]

/-- What is left of a timer is due at the first of its times afterwards, if it has one. There is at
most one first time, so it is enough to find it. -/
theorem mem_after? (hticks : ∀ period ∈ t.period, 0 < period) (hbound : t.due ≤ maxTime) :
    t.after? time = some u ↔ ∃ next, IsLeast {later | time < later ∧ t.DueAt later} next ∧
      u = { t with due := min next maxTime } := by
  have hfirst : ∀ {next : Nat}, IsLeast {later | time < later ∧ t.DueAt later} next →
      ((∃ next, IsLeast {later | time < later ∧ t.DueAt later} next ∧
        u = { t with due := min next maxTime }) ↔ { t with due := min next maxTime } = u) := by
    intro next hnext
    constructor
    · rintro ⟨other, hother, rfl⟩
      rw [hnext.unique hother]
    · rintro rfl
      exact ⟨next, hnext, rfl⟩
  unfold after?
  split
  · rename_i hlt
    have hnow : t.DueAt t.due := by
      unfold DueAt
      split
      · rfl
      · exact ⟨0, by rw [Nat.zero_mul, Nat.add_zero]⟩
    rw [hfirst ⟨⟨hlt, hnow⟩, fun later hlater => le_of_dueAt hlater.2⟩, Nat.min_eq_left hbound,
      Option.some.injEq]
  · rename_i hle
    obtain ⟨id, due, period, token, payload⟩ := t
    cases period with
    | none =>
      refine iff_of_false nofun ?_
      rintro ⟨next, ⟨⟨hlt, hdue⟩, -⟩, -⟩
      exact hle (hdue ▸ hlt)
    | some period =>
      have hpos := hticks period rfl
      have hle : due ≤ time := Nat.le_of_not_lt hle
      have hnext : IsLeast {later | time < later ∧
          DueAt ⟨id, due, some period, token, payload⟩ later}
          (due + ((time - due) / period + 1) * period) := by
        refine ⟨⟨?_, _, rfl⟩, ?_⟩
        · have := (Nat.div_lt_iff_lt_mul hpos).1 (Nat.lt_add_one ((time - due) / period))
          omega
        · rintro later ⟨hlt, k, rfl⟩
          have hlt : time < due + k * period := hlt
          have hk : (time - due) / period < k := (Nat.div_lt_iff_lt_mul hpos).2 (by omega)
          exact Nat.add_le_add_left (Nat.mul_le_mul_right period hk) due
      rw [hfirst hnext, Option.map_some, Option.some.injEq]
      rfl

theorem id_of_after? (h : t.after? time = some u) : u.id = t.id := by
  unfold after? at h
  split at h
  · rw [Option.some.inj h]
  · obtain ⟨period, -, rfl⟩ := Option.map_eq_some_iff.1 h
    rfl

theorem ids_after? (time : Nat) (ts : List (Timer α)) :
    ((ts.filterMap (after? time)).map (·.id)).Sublist (ts.map (·.id)) := by
  induction ts with
  | nil => exact .refl _
  | cons t ts ih =>
    cases hleft : t.after? time with
    | none =>
      rw [List.filterMap_cons_none hleft]
      exact ih.cons t.id
    | some u =>
      rw [List.filterMap_cons_some hleft, List.map_cons, List.map_cons, id_of_after? hleft]
      exact ih.cons_cons t.id

end Times

end Timer

namespace Scheduler

/-! ## One timer -/

section Pop

variable {s s' : Scheduler α} {time : Nat} {t : Timer α}

/-- A timer that is popped leaves its place, or what it has been put off to is there. -/
theorem exists_fired {ts : List (Timer α)} (hids : (ts.map (·.id)).Nodup) (ht : t ∈ ts) :
    ∃ before after,
      ts = before ++ t :: after ∧ fired t ts = before ++ t.putOff?.toList ++ after := by
  induction ts with
  | nil => cases ht
  | cons u ts ih =>
    obtain ⟨hnew, hids⟩ := List.nodup_cons.1 hids
    obtain rfl | ht := List.mem_cons.1 ht
    · refine ⟨[], ts, rfl, ?_⟩
      rw [fired, if_pos rfl]
      unfold Timer.putOff?
      cases t.period with
      | none => rfl
      | some period => rfl
    · obtain ⟨before, after, rfl, hfired⟩ := ih hids ht
      have hne : u.id ≠ t.id := fun he => hnew (List.mem_map.2 ⟨t, ht, he.symm⟩)
      refine ⟨u :: before, after, rfl, ?_⟩
      rw [fired, if_neg hne, hfired]
      rfl

/-- The live timers have names of their own, and those that come back take their time for it. -/
structure Steady (s : Scheduler α) : Prop extends s.Numbered where
  ticks : ∀ t ∈ s.live, ∀ period ∈ t.period, 0 < period
  bound : ∀ t ∈ s.live, t.due ≤ maxTime

namespace Steady

variable (h : s.Steady)
include h

theorem ticks_of_mem_fired : ∀ u ∈ fired t s.live, ∀ period ∈ u.period, 0 < period := by
  intro u hu
  rcases mem_fired hu with hu | ⟨v, hv, -, -, -, rfl⟩
  · exact h.ticks u hu
  · exact h.ticks v hv

theorem pop (time : Nat) : (s.pop time).1.Steady := by
  cases hpop : s.pop time with
  | mk s' next =>
    have hnumbered := h.toNumbered.pop time
    rw [hpop] at hnumbered
    cases next with
    | none =>
      obtain ⟨-, rfl⟩ := pop_eq_none hpop
      exact ⟨hnumbered, by rw [live_live]; exact h.ticks, by rw [live_live]; exact h.bound⟩
    | some t =>
      obtain ⟨-, rfl⟩ := pop_eq_some hpop
      refine ⟨hnumbered, by rw [live_fired]; exact h.ticks_of_mem_fired, fun u hu => ?_⟩
      rw [live_fired] at hu
      rcases mem_fired hu with hu | ⟨v, -, -, period, -, rfl⟩
      · exact h.bound u hu
      · exact Nat.min_le_right _ _

theorem of_sublist (hlive : s'.live.Sublist s.live) (hnext : s'.nextId = s.nextId) : s'.Steady where
  toNumbered := h.toNumbered.of_sublist (hlive.map _) hnext
  ticks t ht := h.ticks t (hlive.subset ht)
  bound t ht := h.bound t (hlive.subset ht)

theorem add {due : Nat} {period : Option Nat} (token : Token) (payload : α) (hdue : due ≤ maxTime)
    (hticks : ∀ p ∈ period, 0 < p) : (s.add due period token payload).1.Steady := by
  refine ⟨h.toNumbered.add due period token payload, fun t ht => ?_, fun t ht => ?_⟩
  · obtain ht | rfl := mem_live_add ht
    · exact h.ticks t ht
    · exact hticks
  · obtain ht | rfl := mem_live_add ht
    · exact h.bound t ht
    · exact hdue

end Steady

/-- A pop takes one occurrence away, which comes before all that are left, and of what is left
afterwards it changes nothing. -/
structure Pops (time : Nat) (t : Timer α) (ts ts' : List (Timer α)) : Prop where
  occurrences : (ts.flatMap (Timer.occurrences time)).Perm
    (t :: ts'.flatMap (Timer.occurrences time))
  first : ∀ u ∈ ts'.flatMap (Timer.occurrences time), t.before u = true
  after : ts.filterMap (Timer.after? time) = ts'.filterMap (Timer.after? time)

theorem Steady.pops (h : s.Steady) (htime : time < maxTime) (hpop : s.pop time = (s', some t)) :
    Pops time t s.live s'.live := by
  obtain ⟨hnext, rfl⟩ := pop_eq_some hpop
  obtain ⟨ht, hdue, hfirst⟩ := of_nextDue? hnext
  have hticks := h.ticks t ht
  obtain ⟨before, after, hlive, hfired⟩ := exists_fired h.nodup ht
  rw [live_fired]
  refine ⟨?_, fun u hu => ?_, ?_⟩
  · rw [hfired, hlive, List.flatMap_append, List.flatMap_cons, List.flatMap_append,
      List.flatMap_append, Timer.occurrences_eq hticks hdue htime, List.append_assoc]
    exact List.perm_middle
  · obtain ⟨v, hv, hu⟩ := List.mem_flatMap.1 hu
    have hv' := h.ticks_of_mem_fired v hv
    obtain ⟨hle, hdueAt, hu⟩ := (Timer.mem_occurrences hv').1 hu
    have hlater := Timer.le_of_dueAt hdueAt
    have hid : u.id = v.id := by rw [hu]
    rw [Timer.before_iff, hid]
    rw [hfired, List.append_assoc, List.mem_append, List.mem_append] at hv
    rcases or_left_comm.1 hv with hput | hother
    · obtain ⟨period, hperiod, rfl⟩ := Option.map_eq_some_iff.1 (Option.mem_toList.1 hput)
      exact .inl ((lt_laterBy (hdue.trans_lt htime) (hticks period hperiod)).trans_le hlater)
    · have hids := h.nodup
      rw [hlive, List.map_append, List.map_cons, List.nodup_middle, ← List.map_append] at hids
      have hmem : v ∈ before ++ after := List.mem_append.2 hother
      have hne : v.id ≠ t.id := fun he =>
        (List.nodup_cons.1 hids).1 (List.mem_map.2 ⟨v, hmem, he⟩)
      have hlive' : v ∈ s.live := by
        rw [hlive]
        exact List.mem_append.2 (hother.imp_right (List.mem_cons_of_mem t))
      have hnot := hfirst v hlive' (hlater.trans hle)
      rw [Timer.before_iff] at hnot
      omega
  · rw [hfired, hlive, List.filterMap_append, List.filterMap_cons, List.filterMap_append,
      List.filterMap_append, Timer.after?_eq hticks hdue htime, List.append_assoc]
    cases t.putOff? with
    | none => rfl
    | some v =>
      rw [Option.bind_some, Option.toList_some, List.filterMap_cons, List.filterMap_nil]
      cases v.after? time with
      | none => rfl
      | some w => rfl

end Pop

/-! ## All that is due -/

/-- Timers are popped up to a time until none of them is due, each with the time that it is then. -/
inductive Drains (time : Nat) : Scheduler α → List (Nat × Timer α) → Scheduler α → Prop where
  | done {s s' : Scheduler α} : s.pop time = (s', none) → Drains time s [] s'
  | next {s s' s'' : Scheduler α} {t : Timer α} {fired : List (Nat × Timer α)} :
      s.pop time = (s', some t) → Drains time s' fired s'' →
        Drains time s ((s'.now, t) :: fired) s''

section Drains

variable {s s' : Scheduler α} {time : Nat} {fired : List (Nat × Timer α)}

theorem pop_now_le (s : Scheduler α) (time : Nat) : s.now ≤ (s.pop time).1.now := by
  cases hpop : s.pop time with
  | mk s' next =>
    cases next with
    | none =>
      obtain ⟨-, rfl⟩ := pop_eq_none hpop
      exact Nat.le_refl _
    | some t =>
      obtain ⟨-, rfl⟩ := pop_eq_some hpop
      exact Nat.le_max_left _ _

/-- Time does not go back. -/
theorem Drains.times (h : Drains time s fired s') :
    (s.now :: fired.map (·.1) ++ [s'.now]).Pairwise (· ≤ ·) := by
  rw [← List.isChain_iff_pairwise]
  induction h with
  | @done s s' hpop =>
    have hle := pop_now_le s time
    rw [hpop] at hle
    exact .cons_cons hle (.singleton _)
  | @next s s' s'' t fired hpop _ ih =>
    have hle := pop_now_le s time
    rw [hpop] at hle
    exact .cons_cons hle ih

/-- What is popped are all occurrences up to the time, in order, and what is left are the timers
that are due afterwards. -/
theorem Drains.all_due (h : Drains time s fired s') (hs : s.Steady) (htime : time < maxTime) :
    (fired.map (·.2)).Perm (s.live.flatMap (Timer.occurrences time)) ∧
      (fired.map (·.2)).Pairwise (·.before · = true) ∧
      s'.timers = s.live.filterMap (Timer.after? time) := by
  induction h with
  | @done s s' hpop =>
    obtain ⟨hnone, rfl⟩ := pop_eq_none hpop
    refine ⟨?_, .nil, ?_⟩
    · rw [List.flatMap_eq_nil_iff.2 fun t ht => Timer.occurrences_of_lt (hnone t ht)]
      exact .refl _
    · have hall : ∀ t ∈ s.live, t.after? time = some t := fun t ht => if_pos (hnone t ht)
      rw [List.filterMap_congr hall, List.filterMap_some]
  | @next s s' s'' t fired hpop _ ih =>
    have hpops := hs.pops htime hpop
    have hs' := hs.pop time
    rw [hpop] at hs'
    obtain ⟨hperm, hsorted, hleft⟩ := ih hs'
    refine ⟨?_, ?_, hleft.trans hpops.after.symm⟩
    · exact (hperm.cons t).trans hpops.occurrences.symm
    · exact List.pairwise_cons.2 ⟨fun u hu => hpops.first u (hperm.mem_iff.1 hu), hsorted⟩

/-! ### Rounds -/

/-- A timer that is popped is due once less, unless it comes back and time has come to its end. -/
theorem firings_eq {t : Timer α} (hticks : ∀ period ∈ t.period, 0 < period) (hdue : t.due ≤ time)
    (h : time < maxTime ∨ t.period = none) :
    firings time t = (t.putOff?.toList.map (firings time)).sum + 1 := by
  have hlength : ∀ u : Timer α, (u.occurrences time).length = firings time u := fun u => by
    rw [Timer.occurrences, List.length_map, List.length_range]
  rcases h with htime | hperiod
  · rw [← hlength, Timer.occurrences_eq hticks hdue htime, List.length_cons, List.length_flatMap]
    exact congrArg (fun f => (t.putOff?.toList.map f).sum + 1) (funext hlength)
  · rw [← hlength, Timer.occurrences_of_single hperiod, if_pos hdue, Timer.putOff?, hperiod]
    rfl

/-- Each timer is due only so often: none of them comes back, or it is for a time before the end. -/
def Exhaustible (time : Nat) (s : Scheduler α) : Prop :=
  time < maxTime ∨ ∀ t ∈ s.live, t.period = none

/-- How often the timers are due together up to a time. -/
def rounds (time : Nat) (s : Scheduler α) : Nat := (s.live.map (firings time)).sum

theorem rounds_of_pop_eq_none (hpop : s.pop time = (s', none)) : s.rounds time = 0 := by
  obtain ⟨hnone, -⟩ := pop_eq_none hpop
  refine List.sum_eq_zero fun n hn => ?_
  obtain ⟨t, ht, rfl⟩ := List.mem_map.1 hn
  exact if_neg (Nat.not_le.2 (hnone t ht))

section Pop

variable {t : Timer α} (hpop : s.pop time = (s', some t))
include hpop

theorem Exhaustible.pop (h : s.Exhaustible time) : s'.Exhaustible time := by
  refine h.imp_right fun hsingle u hu => ?_
  obtain ⟨-, rfl⟩ := pop_eq_some hpop
  rw [live_fired] at hu
  rcases mem_fired hu with hu | ⟨v, hv, -, period, hperiod, -⟩
  · exact hsingle u hu
  · cases (hsingle v hv).symm.trans hperiod

/-- To pop a timer is one round. -/
theorem Steady.rounds_pop (hs : s.Steady) (h : s.Exhaustible time) :
    s.rounds time = s'.rounds time + 1 := by
  obtain ⟨hnext, rfl⟩ := pop_eq_some hpop
  obtain ⟨ht, hdue, -⟩ := of_nextDue? hnext
  obtain ⟨before, after, hlive, hfired⟩ := exists_fired hs.nodup ht
  unfold rounds
  rw [live_fired, hfired, hlive, List.map_append, List.map_cons, List.map_append, List.map_append,
    List.sum_append, List.sum_cons, List.sum_append, List.sum_append,
    firings_eq (hs.ticks t ht) hdue (h.imp_right fun hsingle => hsingle t ht)]
  omega

end Pop

/-- There is an end to it if there are more steps than rounds. -/
theorem drains_drainWithin {fuel : Nat} (hs : s.Steady) (h : s.Exhaustible time)
    (hfuel : s.rounds time < fuel) :
    Drains time s (drainWithin time fuel s).2 (drainWithin time fuel s).1 := by
  induction fuel generalizing s with
  | zero => exact absurd hfuel (Nat.not_lt_zero _)
  | succ fuel ih =>
    unfold drainWithin
    cases hpop : s.pop time with
    | mk s' next =>
      cases next with
      | none => exact .done hpop
      | some t =>
        have hround := hs.rounds_pop hpop h
        have hs' := hs.pop time
        rw [hpop] at hs'
        exact .next hpop (ih hs' (h.pop hpop) (by omega))

theorem drains_of_exhaustible (hs : s.Steady) (h : s.Exhaustible time) :
    Drains time s (s.drain time).2 (s.drain time).1 := by
  have hsteps : ∀ ts : List (Timer α),
      (ts.map (firings time)).sum < ts.foldr (fun t n => firings time t + n) 1 := fun ts => by
    induction ts with
    | nil => exact Nat.one_pos
    | cons t ts ih =>
      rw [List.map_cons, List.sum_cons, List.foldr_cons]
      exact Nat.add_lt_add_left ih _
  exact drains_drainWithin hs h (hsteps s.live)

theorem drains_drain (hs : s.Steady) (htime : time < maxTime) :
    Drains time s (s.drain time).2 (s.drain time).1 := drains_of_exhaustible hs (.inl htime)

end Drains

/-! ## Whatever has been scheduled -/

/-- A scheduler that comes about by what can be asked of it. -/
inductive Built : Scheduler α → Prop where
  | empty : Built {}
  | once {s : Scheduler α} (ms : Nat) (token : Token) (payload : α) :
      Built s → Built (s.once ms token payload).1
  | every {s : Scheduler α} (ms : Nat) (token : Token) (payload : α) :
      Built s → Built (s.every ms token payload).1
  | cancel {s : Scheduler α} (id : Nat) : Built s → Built (s.cancel id).1
  | cancelToken {s : Scheduler α} (token : Token) : Built s → Built (s.cancelToken token)
  | pop {s : Scheduler α} (time : Nat) : Built s → Built (s.pop time).1
  | advanceTo {s : Scheduler α} (time : Nat) : Built s → Built (s.advanceTo time)

theorem Built.steady {s : Scheduler α} (h : s.Built) : s.Steady := by
  induction h with
  | empty =>
    exact ⟨⟨List.nodup_nil, List.forall_mem_nil _⟩, List.forall_mem_nil _, List.forall_mem_nil _⟩
  | once ms token payload _ ih =>
    exact ih.add token payload (Nat.min_le_right _ _) fun _ hp => nomatch hp
  | every ms token payload _ ih =>
    refine ih.add token payload (Nat.min_le_right _ _) fun p hp => ?_
    obtain rfl := Option.some.inj hp
    exact Nat.le_max_right ms 1
  | @cancel s id _ ih => exact ih.of_sublist (live_cancel s id ▸ List.filter_sublist) rfl
  | @cancelToken s token _ ih =>
    exact ih.of_sublist (live_cancelToken s token ▸ List.filter_sublist) rfl
  | pop time _ ih => exact ih.pop time
  | advanceTo time _ ih => exact ih.of_sublist (.refl _) rfl

/-- A scheduler without cancelled timers is drained up to a time before the end of time. Each timer
is popped at each of its times up to then and at no other, and what is popped comes in the order of
these times, and of the names where times are equal, so nothing comes twice. Time does not go back,
and the timers that are left are those that have a time afterwards, due at the first of these. -/
theorem drain_exact {s : Scheduler α} (hs : s.Built) (hlive : ∀ t ∈ s.timers, s.isLive t = true)
    {time : Nat} (htime : time < maxTime) :
    Drains time s (s.drain time).2 (s.drain time).1 ∧
    (∀ u, u ∈ (s.drain time).2.map (·.2) ↔
      u.due ≤ time ∧ ∃ t ∈ s.timers, t.DueAt u.due ∧ u = { t with due := u.due }) ∧
    ((s.drain time).2.map (·.2)).Pairwise
      (fun t u => t.due < u.due ∨ t.due = u.due ∧ t.id < u.id) ∧
    (s.now :: (s.drain time).2.map (·.1) ++ [(s.drain time).1.now]).Pairwise (· ≤ ·) ∧
    ((s.drain time).1.timers.map (·.id)).Sublist (s.timers.map (·.id)) ∧
    ∀ u, u ∈ (s.drain time).1.timers ↔ ∃ t ∈ s.timers, ∃ next,
      IsLeast {later | time < later ∧ t.DueAt later} next ∧
        u = { t with due := min next maxTime } := by
  have hsteady := hs.steady
  have hall : s.live = s.timers := List.filter_eq_self.2 hlive
  have hdrains := drains_drain hsteady htime
  obtain ⟨hperm, hsorted, hleft⟩ := hdrains.all_due hsteady htime
  have hticks := hsteady.ticks
  have hbound := hsteady.bound
  rw [hall] at hperm hleft hticks hbound
  refine ⟨hdrains, fun u => ?_, hsorted.imp Timer.before_iff.1, hdrains.times, ?_, fun u => ?_⟩
  · rw [hperm.mem_iff, List.mem_flatMap]
    constructor
    · rintro ⟨t, ht, hu⟩
      obtain ⟨hle, hdue, hu⟩ := (Timer.mem_occurrences (hticks t ht)).1 hu
      exact ⟨hle, t, ht, hdue, hu⟩
    · rintro ⟨hle, t, ht, hdue, hu⟩
      exact ⟨t, ht, (Timer.mem_occurrences (hticks t ht)).2 ⟨hle, hdue, hu⟩⟩
  · rw [hleft]
    exact Timer.ids_after? time s.timers
  · rw [hleft, List.mem_filterMap]
    exact exists_congr fun t => and_congr_right fun ht =>
      Timer.mem_after? (hticks t ht) (hbound t ht)

/-- A tick, and two timers that run once and are scheduled after it. -/
def ringing : Scheduler String :=
  ((({} : Scheduler String).every 20 0 "tick").1.once 40 0 "late").1.once 5 0 "early" |>.1

/-- Two ticks and both timers are popped by fifty. At forty the tick comes before the timer that was
scheduled later. -/
theorem drain_exact_ringing : ringing.Built ∧ (∀ t ∈ ringing.timers, ringing.isLive t = true) ∧
    50 < maxTime ∧
    (ringing.drain 50).2.map (fun f => (f.1, f.2.id)) = [(5, 2), (20, 0), (40, 0), (40, 1)] ∧
    ∀ u ∈ (ringing.drain 50).1.timers, 50 < u.due := by
  have hbuilt : ringing.Built := .once 5 0 "early" (.once 40 0 "late" (.every 20 0 "tick" .empty))
  have hlive : ∀ t ∈ ringing.timers, ringing.isLive t = true := fun t _ => rfl
  have htime : 50 < maxTime := by decide
  obtain ⟨-, -, -, -, -, hleft⟩ := drain_exact hbuilt hlive htime
  refine ⟨hbuilt, hlive, htime, by decide, fun u hu => ?_⟩
  obtain ⟨t, -, next, hnext, rfl⟩ := (hleft u).1 hu
  exact Nat.lt_min.2 ⟨hnext.1.1, htime⟩

/-!
## Drains that end

A drain takes one round for each time at which a timer is due, and there are only so many of them
before the end of time. There an interval cannot be put off any more: it is popped, and it is due as
before. So to drain all that is due up to the end of time has an end only if no timer comes back.
-/

section Drains

variable {s s' s'' : Scheduler α} {time : Nat} {fired fired' : List (Nat × Timer α)}

theorem Drains.unique (h : Drains time s fired s') (h' : Drains time s fired' s'') :
    fired' = fired ∧ s'' = s' := by
  induction h generalizing fired' with
  | done hpop =>
    cases h' with
    | done hpop' => exact ⟨rfl, (Prod.mk.inj (hpop'.symm.trans hpop)).1⟩
    | next hpop' _ => cases (Prod.mk.inj (hpop'.symm.trans hpop)).2
  | next hpop _ ih =>
    cases h' with
    | done hpop' => cases (Prod.mk.inj (hpop'.symm.trans hpop)).2
    | next hpop' hrest =>
      obtain ⟨rfl, ht⟩ := Prod.mk.inj (hpop'.symm.trans hpop)
      obtain rfl := Option.some.inj ht
      obtain ⟨rfl, rfl⟩ := ih hrest
      exact ⟨rfl, rfl⟩

theorem Drains.length_eq (h : Drains time s fired s') (hs : s.Steady) (hx : s.Exhaustible time) :
    fired.length = s.rounds time := by
  induction h with
  | done hpop => rw [rounds_of_pop_eq_none hpop, List.length_nil]
  | @next s s' s'' t fired hpop _ ih =>
    have hs' := hs.pop time
    rw [hpop] at hs'
    rw [List.length_cons, ih hs' (hx.pop hpop), hs.rounds_pop hpop hx]

/-- A timer that comes back stays, whatever is popped. -/
theorem Steady.single_of_pop (hs : s.Steady) {t : Timer α} (hpop : s.pop time = (s', some t))
    (h : ∀ u ∈ s'.live, u.period = none) : ∀ u ∈ s.live, u.period = none := by
  obtain ⟨hnext, rfl⟩ := pop_eq_some hpop
  obtain ⟨ht, -, -⟩ := of_nextDue? hnext
  obtain ⟨before, after, hlive, hfired⟩ := exists_fired hs.nodup ht
  rw [live_fired, hfired] at h
  rw [hlive]
  intro u hu
  rcases List.mem_append.1 hu with hu | hu
  · exact h u (List.mem_append_left _ (List.mem_append_left _ hu))
  · rcases List.mem_cons.1 hu with rfl | hu
    · cases hperiod : u.period with
      | none => rfl
      | some period =>
        have hput := Option.mem_toList.2 (Timer.putOff?_of_interval hperiod)
        have hnone := h _ (List.mem_append_left _ (List.mem_append_right before hput))
        exact hperiod.symm.trans hnone
    · exact h u (List.mem_append_right _ hu)

/-- What is due at the end of time and comes back is due for ever. -/
theorem Drains.exhaustible (h : Drains time s fired s') (hs : s.Steady) : s.Exhaustible time := by
  induction h with
  | @done s s' hpop =>
    obtain ⟨hnone, -⟩ := pop_eq_none hpop
    exact (Nat.lt_or_ge time maxTime).imp_right fun hend t ht =>
      absurd ((hnone t ht).trans_le (hs.bound t ht)) (Nat.not_lt.2 hend)
  | @next s s' s'' t fired hpop _ ih =>
    have hs' := hs.pop time
    rw [hpop] at hs'
    exact (ih hs').imp_right (hs.single_of_pop hpop)

end Drains

/-- To pop what is due up to a time, one timer after the other, has an end if and only if the time
is before the end of time or no live timer comes back. If it has one, it takes one pop for each time
at which a timer is due. -/
theorem drains_iff {s : Scheduler α} (hs : s.Built) (time : Nat) :
    ((∃ fired s', Drains time s fired s') ↔
      time < maxTime ∨ ∀ t ∈ s.live, t.period = none) ∧
    ∀ fired s', Drains time s fired s' →
      s.drain time = (s', fired) ∧ fired.length = (s.live.map (firings time)).sum := by
  have hsteady := hs.steady
  refine ⟨⟨?_, fun h => ⟨_, _, drains_of_exhaustible hsteady h⟩⟩, fun fired s' h => ?_⟩
  · rintro ⟨fired, s', h⟩
    exact h.exhaustible hsteady
  · have hx := h.exhaustible hsteady
    obtain ⟨rfl, rfl⟩ := (drains_of_exhaustible hsteady hx).unique h
    exact ⟨rfl, h.length_eq hsteady hx⟩

/-- A tick that has been silenced, and two timers that run once. -/
def silenced : Scheduler String :=
  (((({} : Scheduler String).every 20 0 "tick").1.once maxTime 1 "last").1.once 5 1 "early").1
    |>.cancelToken 0

/-- A tick that is silenced no longer stands in the way of an end. The last timer is due at the end
of time. -/
theorem drains_silenced : silenced.Built ∧
    ∃ fired s', Drains maxTime silenced fired s' ∧ fired.length = 2 := by
  have hbuilt : silenced.Built :=
    .cancelToken 0 (.once 5 1 "early" (.once maxTime 1 "last" (.every 20 0 "tick" .empty)))
  obtain ⟨hends, hlength⟩ := drains_iff hbuilt maxTime
  obtain ⟨fired, s', h⟩ := hends.2 (.inr (by decide))
  exact ⟨hbuilt, fired, s', h, (hlength fired s' h).2⟩

/-- A tick that would be due again only after the end of time is popped at that time for ever. -/
theorem not_drains_last : ¬∀ s : Scheduler String, s.Built → ∀ time ≤ maxTime,
    ∃ fired s', Drains time s fired s' := by
  intro h
  have hbuilt : (({} : Scheduler String).every maxTime 0 "tick").1.Built :=
    .every maxTime 0 _ .empty
  obtain ⟨fired, s', hdrains⟩ := h _ hbuilt maxTime (Nat.le_refl _)
  have hend := (hdrains.exhaustible hbuilt.steady).resolve_left (Nat.lt_irrefl _)
  cases hend ⟨0, maxTime, some maxTime, 0, "tick"⟩ List.mem_cons_self

end Scheduler

end Archipelago
