import Archipelago.Proofs.Action.Sequence
import Archipelago.Proofs.Scheduler.Timely
import Archipelago.Proofs.Session.Calls

/-!
# Jobs that come due

A job may change handlers, and so cancel timers and make new ones, and it may suspend sequences
anew. None of that is overdue. What is left to do gets less with each job: time moves on, or an
interval is put off, or a sequence goes on behind one of its delays.
-/

namespace Archipelago

open Scheduler (Resets)

namespace Session

/-- What is run once only is a suspended sequence. -/
def Resumes (x : String × Job) : Prop := ∃ c, x.2 = .resume c

/-- No timer of the session is overdue. -/
def OnTime (s : Session) : Prop := s.scheduler.Timely Resumes

/-! ## What becomes of the timers -/

theorem cancelAll_resets (sch : Scheduler (String × Job)) (timers : List Nat) :
    Resets sch (cancelAll sch timers) := by
  unfold cancelAll
  exact List.foldlRecOn timers _ (motive := Resets sch) (.refl sch) fun _ h timer _ =>
    .cancel timer h

theorem schedule_resets (token : Token) (island : String) (ws : List (Nat × Nat))
    (sch : Scheduler (String × Job)) : Resets sch (schedule token island ws sch).1 := by
  induction ws generalizing sch with
  | nil => exact .refl sch
  | cons w ws ih => exact (Resets.every w.2 token _ (.refl sch)).trans (ih _)

theorem syncTimers_resets (least : Nat) (sch : Scheduler (String × Job)) (m : Mounted) :
    Resets sch (syncTimers least sch m).1 := by
  unfold syncTimers
  dsimp only
  split
  · exact .refl sch
  · exact (cancelAll_resets sch _).trans (schedule_resets _ _ _ _)

theorem refresh_resets {s : Session} {sch : Scheduler (String × Job)} (h : s.scheduler = sch)
    (template : String) (store : Store) (changed : List String) :
    Resets sch (s.refresh template store changed).1.scheduler :=
  List.foldlRecOn _ _ (motive := fun t : Session => Resets sch t.scheduler) (h ▸ .refl _)
    fun _ h _ _ => h.trans (syncTimers_resets _ _ _)

/-- Puts off what is suspended of an island. -/
def putOff (token : Token) (island : String) (suspended : List Continuation)
    (sch : Scheduler (String × Job)) : Scheduler (String × Job) :=
  suspended.foldl (fun sch c => (sch.once c.delayMs token (island, .resume c)).1) sch

/-- Timers are reset, and what is suspended is put off behind that. -/
def Reschedules (suspended : List Continuation) (old new : Scheduler (String × Job)) : Prop :=
  ∃ sch token island, Resets old sch ∧ new = putOff token island suspended sch

namespace Reschedules

variable {suspended : List Continuation} {old new : Scheduler (String × Job)}

theorem refl (sch : Scheduler (String × Job)) : Reschedules [] sch sch :=
  ⟨sch, 0, "", .refl sch, rfl⟩

theorem now (h : Reschedules suspended old new) : new.now = old.now := by
  obtain ⟨sch, token, island, hresets, rfl⟩ := h
  rw [← hresets.now]
  exact List.foldlRecOn suspended _ (motive := fun sch' : Scheduler _ => sch'.now = sch.now) rfl
    fun _ h _ _ => h

/-- What is put off is due now or later. -/
theorem timely (h : Reschedules suspended old new) (hold : old.Timely Resumes)
    (hnow : old.now < maxTime) : new.Timely Resumes := by
  obtain ⟨sch, token, island, hresets, rfl⟩ := h
  have hsch := hresets.timely hold hnow
  rw [← hresets.now] at hnow
  clear hresets
  induction suspended generalizing sch with
  | nil => exact hsch
  | cons c suspended ih => exact ih _ hnow (hsch.once hnow c.delayMs token ⟨c, rfl⟩)

/-- What is due now weighs no more than before, but for the sequences that are suspended. -/
theorem load_le {weight : Timer (String × Job) → Nat} {size : Continuation → Nat}
    (hsize : ∀ id due token island c, weight ⟨id, due, none, token, island, .resume c⟩ = size c)
    (h : Reschedules suspended old new) (hnow : old.now < maxTime) :
    new.load weight ≤ old.load weight + (suspended.map size).sum := by
  obtain ⟨sch, token, island, hresets, rfl⟩ := h
  have hsch := Scheduler.load_le_of_sublist weight (hresets.ready_sublist hnow)
  refine le_trans ?_ (Nat.add_le_add_right hsch _)
  clear hresets hsch
  induction suspended generalizing sch with
  | nil => exact Nat.le_refl _
  | cons c suspended ih =>
    have hnew := Scheduler.load_once_le weight sch c.delayMs token (island, .resume c)
    rw [hsize] at hnew
    rw [List.map_cons, List.sum_cons, ← Nat.add_assoc]
    exact (ih _).trans (Nat.add_le_add_right hnew _)

end Reschedules

/-- An event resets timers and puts off what it suspends. -/
theorem fire_reschedules (s : Session) (island : String) (run : Trace → Outcome) :
    ∃ suspended, Reschedules suspended s.scheduler (s.fire island run).1.scheduler ∧
      (suspended = [] ∨ ∃ t u, run t = .ok (u, suspended)) := by
  unfold fire
  split
  · exact ⟨[], .refl _, .inl rfl⟩
  · rename_i m _
    split
    · exact ⟨[], .refl _, .inl rfl⟩
    · split
      · exact ⟨[], .refl _, .inl rfl⟩
      · rename_i store _
        dsimp only
        cases hrun : run { store } with
        | ok r =>
          obtain ⟨t, suspended⟩ := r
          refine ⟨suspended, ⟨_, m.token, m.island.id, ?_, rfl⟩, .inr ⟨_, t, hrun⟩⟩
          refine refresh_resets ?_ _ _ _
          rfl
        | error f =>
          refine ⟨[], ⟨_, m.token, m.island.id, ?_, rfl⟩, .inl rfl⟩
          refine refresh_resets ?_ _ _ _
          rfl

/-! ## Jobs -/

/-- A job resets timers, and it puts off what it suspends; that is less than the job itself if this
is to resume a sequence. -/
theorem runJob_reschedules (s : Session) (island : String) (job : Job) :
    ∃ suspended, Reschedules suspended s.scheduler (s.runJob island job).1.scheduler ∧
      ∀ c, job = .resume c → (suspended.map fun d => d.size + 1).sum < job.weight := by
  cases job with
  | interval index =>
    show ∃ suspended, Reschedules suspended s.scheduler (s.tick island index).1.scheduler ∧ _
    unfold tick
    split
    · exact ⟨[], .refl _, fun c hc => nomatch hc⟩
    · rename_i h _
      obtain ⟨suspended, hfire, -⟩ := s.fire_reschedules island (Action.run h.locals h.actions)
      exact ⟨suspended, hfire, fun c hc => nomatch hc⟩
  | resume c =>
    unfold runJob
    by_cases hmounted : Dict.contains s.mounted island = true
    · simp only [if_pos hmounted]
      obtain ⟨suspended, hfire, hfrom⟩ := s.fire_reschedules island c.resume
      refine ⟨suspended, hfire, fun _ _ => ?_⟩
      obtain rfl | ⟨t, u, hrun⟩ := hfrom
      · exact Nat.succ_pos c.size
      · obtain ⟨rest, -, rfl, hsmaller⟩ := Continuation.resume_eq_ok hrun
        cases rest with
        | none => exact Nat.succ_pos c.size
        | some d => simpa [Job.weight] using (hsmaller d rfl).2
    · simp only [if_neg hmounted]
      exact ⟨[], .refl _, fun _ _ => Nat.succ_pos c.size⟩

/-- An interval that is due counts one. -/
def tickWeight (t : Timer (String × Job)) : Nat := if t.period.isSome then 1 else 0

/-- A suspended sequence that is due counts its steps. -/
def stepWeight (t : Timer (String × Job)) : Nat := if t.period.isSome then 0 else t.payload.2.weight

theorem backlog_eq (time : Nat) (s : Session) :
    backlog time s =
      ⟨time - s.now, s.scheduler.load tickWeight, s.scheduler.load stepWeight⟩ := by
  have hticks : ∀ ts : List (Timer (String × Job)),
      (ts.filter (·.period.isSome)).length = (ts.map tickWeight).sum := by
    intro ts
    induction ts with
    | nil => rfl
    | cons t ts ih =>
      rw [List.filter_cons, List.map_cons, List.sum_cons, tickWeight, ← ih]
      split
      · rw [List.length_cons, Nat.add_comm]
      · rw [Nat.zero_add]
  have hsteps : ∀ ts : List (Timer (String × Job)),
      (ts.filter (·.period.isNone)).foldr (fun t n => t.payload.2.weight + n) 0 =
        (ts.map stepWeight).sum := by
    intro ts
    induction ts with
    | nil => rfl
    | cons t ts ih =>
      rw [List.filter_cons, List.map_cons, List.sum_cons, stepWeight, ← ih]
      cases t.period with
      | none => rfl
      | some period => exact (Nat.zero_add _).symm
  exact congrArg₂ (Backlog.mk (time - s.now)) (hticks _) (hsteps _)

section RunJob

variable (s : Session) (island : String) (job : Job)

theorem runJob_now : (s.runJob island job).1.now = s.now := by
  obtain ⟨suspended, hjob, -⟩ := s.runJob_reschedules island job
  exact hjob.now

variable {s} (hnow : s.now < maxTime)
include hnow

theorem runJob_onTime (hs : s.OnTime) : (s.runJob island job).1.OnTime := by
  obtain ⟨suspended, hjob, -⟩ := s.runJob_reschedules island job
  exact hjob.timely hs hnow

/-- No job makes an interval due at once. -/
theorem ticks_runJob_le :
    (s.runJob island job).1.scheduler.load tickWeight ≤ s.scheduler.load tickWeight := by
  obtain ⟨suspended, hjob, -⟩ := s.runJob_reschedules island job
  calc (s.runJob island job).1.scheduler.load tickWeight
    _ ≤ s.scheduler.load tickWeight + (suspended.map fun _ => 0).sum :=
      hjob.load_le (fun _ _ _ _ _ => rfl) hnow
    _ = s.scheduler.load tickWeight := by simp

/-- What a resumed sequence suspends again is less than what has been resumed. -/
theorem steps_runJob_lt (c : Continuation) :
    (s.runJob island (.resume c)).1.scheduler.load stepWeight <
      (Job.resume c).weight + s.scheduler.load stepWeight := by
  obtain ⟨suspended, hjob, hless⟩ := s.runJob_reschedules island (.resume c)
  calc (s.runJob island (.resume c)).1.scheduler.load stepWeight
    _ ≤ s.scheduler.load stepWeight + (suspended.map fun d => d.size + 1).sum :=
      hjob.load_le (fun _ _ _ _ _ => rfl) hnow
    _ < s.scheduler.load stepWeight + (Job.resume c).weight :=
      Nat.add_lt_add_left (hless c rfl) _
    _ = (Job.resume c).weight + s.scheduler.load stepWeight := Nat.add_comm _ _

end RunJob

/-! ## What is due, one by one -/

/-- A timer that is popped, with its job done. -/
def popped (s : Session) (sch : Scheduler (String × Job)) (t : Timer (String × Job)) :
    Session × Option (Except HydrationError Firing) :=
  ({ s with scheduler := sch } : Session).runJob t.payload.1 t.payload.2

section Popped

variable {s : Session} (hs : s.OnTime) {time : Nat} (htime : time < maxTime)
  {sch : Scheduler (String × Job)} {t : Timer (String × Job)}
  (hpop : s.scheduler.pop time = (sch, some t))
include hs htime hpop

theorem popped_onTime : (s.popped sch t).1.OnTime :=
  runJob_onTime _ _ (((hs.now_pop hpop).1.trans_le (hs.now_pop hpop).2.2.1).trans_lt htime)
    (hs.pop_some hpop htime)

omit htime in
theorem popped_now : (s.popped sch t).1.now = t.due :=
  (runJob_now _ _ _).trans (hs.now_pop hpop).1

/-- Each job makes what is left to do less. Time moves on, or else the timer is one of those that
are due now. -/
theorem popped_less : (backlog time (s.popped sch t).1).less (backlog time s) := by
  obtain ⟨hnow, hle, hdue, ht⟩ := hs.now_pop hpop
  have hlt : ({ s with scheduler := sch } : Session).now < maxTime :=
    (hnow.trans_le hdue).trans_lt htime
  have hticks : (s.popped sch t).1.scheduler.load tickWeight ≤ sch.load tickWeight :=
    ticks_runJob_le t.payload.1 t.payload.2 hlt
  rw [backlog_eq, backlog_eq, popped_now hs hpop]
  unfold Backlog.less
  obtain hlater | heq := hle.lt_or_eq
  · exact .inl (Nat.sub_lt_sub_left (hlater.trans_le hdue) hlater)
  · refine .inr ⟨congrArg (time - ·) heq.symm, ?_⟩
    have hticks' := hs.load_pop tickWeight hpop htime heq.symm
    show (s.popped sch t).1.scheduler.load tickWeight < s.scheduler.load tickWeight ∨
      (s.popped sch t).1.scheduler.load tickWeight = s.scheduler.load tickWeight ∧
        (s.popped sch t).1.scheduler.load stepWeight < s.scheduler.load stepWeight
    cases hperiod : t.period with
    | some period =>
      have hone : tickWeight t = 1 := by simp [tickWeight, hperiod]
      exact .inl (by omega)
    | none =>
      have hzero : tickWeight t = 0 := by simp [tickWeight, hperiod]
      obtain ⟨c, hc⟩ := hs.single t ht hperiod
      have hweight : stepWeight t = (Job.resume c).weight := by simp [stepWeight, hperiod, hc]
      have hsteps : (s.popped sch t).1.scheduler.load stepWeight <
          (Job.resume c).weight + sch.load stepWeight := by
        unfold popped
        rw [hc]
        exact steps_runJob_lt t.payload.1 hlt c
      have hsteps' := hs.load_pop stepWeight hpop htime heq.symm
      omega

end Popped

end Session

end Archipelago
