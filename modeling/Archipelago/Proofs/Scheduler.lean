import Archipelago.Scheduler
import Mathlib.Data.List.Nodup

/-!
# Timers that come back

What is left of a scheduler when one forgets the time: the live timers that have a period, in the
order in which they were scheduled. To pop a timer changes nothing about them, whether it is one of
them or not.
-/

namespace Archipelago

universe u

variable {α : Type u}

/-- A live timer with a period, without the time when it is due. -/
structure Recurring (α : Type u) where
  id : Nat
  period : Nat
  token : Token
  payload : α

/-- An interval without its next time. -/
def Timer.recurring? (t : Timer α) : Option (Recurring α) :=
  t.period.map fun period => ⟨t.id, period, t.token, t.payload⟩

theorem Timer.of_recurring? {t : Timer α} {e : Recurring α} (h : t.recurring? = some e) :
    e.id = t.id ∧ e.token = t.token := by
  obtain ⟨period, -, rfl⟩ := Option.map_eq_some_iff.1 h
  exact ⟨rfl, rfl⟩

namespace Scheduler

/-- The intervals that are live, in order. -/
def recurring (s : Scheduler α) : List (Recurring α) := s.live.filterMap Timer.recurring?

/-! ## New timers -/

/-- A timer without a period does not come back, be it live or not. -/
theorem recurring_once (s : Scheduler α) (ms : Nat) (token : Token) (payload : α) :
    (s.once ms token payload).1.recurring = s.recurring := by
  show List.filterMap _ (List.filter s.isLive (s.timers ++ [_])) = _
  rw [List.filter_append, List.filterMap_append, List.filter_singleton]
  cases s.isLive ⟨s.nextId, laterBy s.now ms, none, token, payload⟩ with
  | true => exact List.append_nil _
  | false => exact List.append_nil _

theorem recurring_every (s : Scheduler α) (ms : Nat) {token : Token} (payload : α)
    (h : token ∉ s.cancelled) :
    (s.every ms token payload).1.recurring =
      s.recurring ++ [⟨s.nextId, max ms 1, token, payload⟩] := by
  have hlive : ∀ due period, s.isLive ⟨s.nextId, due, period, token, payload⟩ = true := by
    simpa [isLive] using h
  show List.filterMap _ (List.filter s.isLive (s.timers ++ [_])) = _
  rw [List.filter_append, List.filterMap_append, List.filter_singleton, hlive]
  rfl

/-! ## Timers that are cancelled -/

theorem filterMap_filter_recurring {p : Timer α → Bool} {q : Recurring α → Bool}
    (h : ∀ t e, t.recurring? = some e → p t = q e) (ts : List (Timer α)) :
    (ts.filter p).filterMap Timer.recurring? = (ts.filterMap Timer.recurring?).filter q := by
  induction ts with
  | nil => rfl
  | cons t ts ih =>
    cases he : t.recurring? with
    | none =>
      rw [List.filterMap_cons_none he]
      cases hp : p t with
      | true => rw [List.filter_cons_of_pos hp, List.filterMap_cons_none he, ih]
      | false => rw [List.filter_cons_of_neg (by simp [hp]), ih]
    | some e =>
      rw [List.filterMap_cons_some he]
      cases hp : p t with
      | true =>
        rw [List.filter_cons_of_pos hp, List.filterMap_cons_some he, ih,
          List.filter_cons_of_pos (h t e he ▸ hp)]
      | false =>
        rw [List.filter_cons_of_neg (by simp [hp]), ih,
          List.filter_cons_of_neg (by rw [← h t e he]; simp [hp])]

theorem recurring_cancel (s : Scheduler α) (id : Nat) :
    (s.cancel id).1.recurring = s.recurring.filter (·.id ≠ id) := by
  show List.filterMap _ (List.filter s.isLive (List.filter _ _)) = _
  rw [List.filter_comm]
  refine filterMap_filter_recurring (fun t e he => ?_) _
  rw [(Timer.of_recurring? he).1]

theorem live_cancelToken (s : Scheduler α) (token : Token) :
    (s.cancelToken token).live = s.live.filter (·.token ≠ token) := by
  show List.filter _ _ = List.filter _ (List.filter _ _)
  rw [List.filter_filter]
  refine List.filter_congr fun t _ => ?_
  simp [isLive, cancelToken, Bool.not_or]

theorem recurring_cancelToken (s : Scheduler α) (token : Token) :
    (s.cancelToken token).recurring = s.recurring.filter (·.token ≠ token) := by
  unfold recurring
  rw [live_cancelToken]
  refine filterMap_filter_recurring (fun t e he => ?_) _
  rw [(Timer.of_recurring? he).2]

/-! ## Timers that are due -/

theorem recurring_fired (t : Timer α) (ts : List (Timer α)) :
    (fired t ts).filterMap Timer.recurring? = ts.filterMap Timer.recurring? := by
  induction ts with
  | nil => rfl
  | cons u ts ih =>
    unfold fired
    split
    · split
      · rename_i period hp
        simp [Timer.recurring?, hp]
      · rename_i hp
        simp [Timer.recurring?, hp]
    · rw [List.filterMap_cons, List.filterMap_cons, ih]

theorem isLive_of_mem_fired {s : Scheduler α} {t : Timer α} {ts : List (Timer α)}
    (h : ∀ u ∈ ts, s.isLive u = true) : ∀ u ∈ fired t ts, s.isLive u = true := by
  induction ts with
  | nil => exact h
  | cons v ts ih =>
    obtain ⟨hv, hts⟩ := List.forall_mem_cons.1 h
    unfold fired
    split
    · split
      · exact List.forall_mem_cons.2 ⟨hv, hts⟩
      · exact hts
    · exact List.forall_mem_cons.2 ⟨hv, ih hts⟩

/-- To pop a timer changes nothing about those that come back. -/
theorem recurring_pop (s : Scheduler α) (time : Nat) : (s.pop time).1.recurring = s.recurring := by
  have hlive : ∀ u ∈ s.live, s.isLive u = true := fun u hu => (List.mem_filter.1 hu).2
  unfold pop
  dsimp only
  split
  · rename_i t _
    show List.filterMap _ (List.filter s.isLive (fired t s.live)) = _
    rw [List.filter_eq_self.2 (isLive_of_mem_fired hlive), recurring_fired]
    rfl
  · show List.filterMap _ (List.filter s.isLive s.live) = _
    rw [List.filter_eq_self.2 hlive]
    rfl

theorem pop_nextId (s : Scheduler α) (time : Nat) : (s.pop time).1.nextId = s.nextId := by
  unfold pop
  dsimp only
  split
  · rfl
  · rfl

theorem pop_cancelled (s : Scheduler α) (time : Nat) : (s.pop time).1.cancelled = s.cancelled := by
  unfold pop
  dsimp only
  split
  · rfl
  · rfl

/-! ## Ledgers -/

/-- The timers that come back have names of their own, all of them from the past. -/
structure Orderly (s : Scheduler α) : Prop where
  nodup : (s.recurring.map (·.id)).Nodup
  old : ∀ e ∈ s.recurring, e.id < s.nextId

namespace Orderly

variable {s s' : Scheduler α}

theorem of_sublist (h : s.Orderly) (hr : s'.recurring.Sublist s.recurring)
    (hn : s'.nextId = s.nextId) : s'.Orderly where
  nodup := h.nodup.sublist (hr.map _)
  old e he := hn ▸ h.old e (hr.subset he)

theorem every (h : s.Orderly) (ms : Nat) {token : Token} (payload : α)
    (ht : token ∉ s.cancelled) : (s.every ms token payload).1.Orderly := by
  have hr := recurring_every s ms payload ht
  refine ⟨?_, fun e he => ?_⟩
  · rw [hr, List.map_append]
    refine h.nodup.append (List.nodup_singleton _) ?_
    intro id hid hnew
    obtain ⟨e, he, rfl⟩ := List.mem_map.1 hid
    exact absurd (h.old e he) (by rw [List.mem_singleton.1 hnew]; exact Nat.lt_irrefl _)
  · rw [hr] at he
    rcases List.mem_append.1 he with he | he
    · exact Nat.lt_succ_of_lt (h.old e he)
    · rw [List.mem_singleton.1 he]
      exact Nat.lt_succ_self _

end Orderly

/-! ## Numbers of timers -/

theorem live_cancel (s : Scheduler α) (id : Nat) :
    (s.cancel id).1.live = s.live.filter (·.id ≠ id) := List.filter_comm ..

theorem live_add (s : Scheduler α) (due : Nat) (period : Option Nat) (token : Token) (payload : α) :
    (s.add due period token payload).1.live =
      s.live ++ [⟨s.nextId, due, period, token, payload⟩].filter s.isLive :=
  List.filter_append ..

theorem mem_live_add {s : Scheduler α} {due : Nat} {period : Option Nat} {token : Token}
    {payload : α}
    {t : Timer α} (ht : t ∈ (s.add due period token payload).1.live) :
    t ∈ s.live ∨ t = ⟨s.nextId, due, period, token, payload⟩ := by
  rw [live_add, List.mem_append] at ht
  exact ht.imp id fun ht => List.mem_singleton.1 (List.mem_filter.1 ht).1

/-- The live timers have names of their own, all of them from the past. -/
structure Numbered (s : Scheduler α) : Prop where
  nodup : (s.live.map (·.id)).Nodup
  old : ∀ t ∈ s.live, t.id < s.nextId

namespace Numbered

variable {s s' : Scheduler α} (h : s.Numbered)
include h

theorem eq_of_id {t u : Timer α} (ht : t ∈ s.live) (hu : u ∈ s.live) (hid : t.id = u.id) : t = u :=
  List.inj_on_of_nodup_map h.nodup ht hu hid

theorem of_sublist (hids : (s'.live.map (·.id)).Sublist (s.live.map (·.id)))
    (hnext : s'.nextId = s.nextId) : s'.Numbered where
  nodup := h.nodup.sublist hids
  old t ht := by
    obtain ⟨u, hu, hid⟩ := List.mem_map.1 (hids.subset (List.mem_map_of_mem ht))
    rw [← hid, hnext]
    exact h.old u hu

theorem add (due : Nat) (period : Option Nat) (token : Token) (payload : α) :
    (s.add due period token payload).1.Numbered := by
  refine ⟨?_, fun t ht => ?_⟩
  · rw [live_add, List.map_append]
    have hnew := List.filter_sublist (p := s.isLive)
      (l := [⟨s.nextId, due, period, token, payload⟩])
    refine h.nodup.append ((List.nodup_singleton s.nextId).sublist (hnew.map (·.id))) ?_
    intro id hid hid'
    obtain ⟨t, ht, rfl⟩ := List.mem_map.1 hid
    have := List.mem_singleton.1 ((hnew.map (·.id)).subset hid')
    exact absurd (h.old t ht) (by rw [this]; exact Nat.lt_irrefl _)
  · rcases mem_live_add ht with ht | rfl
    · exact Nat.lt_succ_of_lt (h.old t ht)
    · exact Nat.lt_succ_self _

end Numbered

end Scheduler

end Archipelago
