import Archipelago.Proofs.Session.Jobs
import Archipelago.Proofs.Session.Tasks

/-!
# Time that passes in steps

What is due is run one by one until nothing is due any more. No timer is overdue before or after
that, so nothing that is due by some time waits for a later one: it makes no difference whether time
passes at once or in two steps.

A job may make new intervals and suspend sequences anew, some of them for no time at all. Still
there is an end to it. Time does not move on for ever, a new interval is never due at once, and of a
sequence that is suspended again less is left than before.
-/

namespace Archipelago

namespace TickReport

/-- One report behind another. -/
def append (r r' : TickReport) : TickReport where
  fired := r.fired + r'.fired
  rerendered := addAllNew r.rerendered r'.rerendered
  errors := r.errors ++ r'.errors

/-- Adds what a job has done, if it has done anything. -/
def note (r : TickReport) : Option (Except HydrationError Firing) → TickReport
  | some outcome => r.add outcome
  | none => r

theorem append_empty (r : TickReport) : r.append {} = r := by
  simp [append, addAllNew]

theorem append_note (r r' : TickReport) (outcome : Option (Except HydrationError Firing)) :
    (r.append r').note outcome = r.append (r'.note outcome) := by
  cases outcome with
  | none => rfl
  | some outcome =>
    cases outcome with
    | error e => simp [note, add, append, Nat.add_assoc]
    | ok f => simp [note, add, append, Nat.add_assoc, addAllNew_assoc]

end TickReport

namespace Session

section RunDue

variable {s : Session} {time : Nat} {sch : Scheduler (String × Job)} {t : Timer (String × Job)}

theorem runDue_none (hpop : s.scheduler.pop time = (sch, none)) (r : TickReport) :
    runDue time s r = ({ s with scheduler := sch }, r) := by
  rw [runDue, hpop]

/-- There is always something done about what is due, so no timer that is due is left. -/
theorem runDue_some (hs : s.OnTime) (htime : time < maxTime)
    (hpop : s.scheduler.pop time = (sch, some t)) (r : TickReport) :
    runDue time s r = runDue time (s.popped sch t).1 (r.note (s.popped sch t).2) := by
  rw [runDue, hpop]
  exact dif_pos (popped_less hs htime hpop)

/-- What holds when nothing is due, and before a job if it holds behind it, holds of all that is run
up to a time. -/
theorem runDue_induction {motive : Session → TickReport → Prop} (htime : time < maxTime)
    (idle : ∀ s r sch, s.OnTime → s.scheduler.pop time = (sch, none) → motive s r)
    (job : ∀ s r sch t, s.OnTime → s.scheduler.pop time = (sch, some t) →
      motive (s.popped sch t).1 (r.note (s.popped sch t).2) → motive s r)
    (r : TickReport) (hs : s.OnTime) : motive s r := by
  fun_induction Session.runDue time s r with
  | case1 s r sch hpop => exact idle s r sch hs hpop
  | case2 s r sch t hpop next r' h ih =>
    exact job s r sch t hs hpop (ih (popped_onTime hs htime hpop))
  | case3 s r sch t hpop next r' h => exact absurd (popped_less hs htime hpop) h

/-- Nothing is left that is due. -/
theorem runDue_settled (hs : s.OnTime) (hnow : s.now ≤ time) (htime : time < maxTime)
    (r : TickReport) : (runDue time s r).1.OnTime ∧ (runDue time s r).1.now ≤ time ∧
      ∀ t ∈ (runDue time s r).1.scheduler.live, time < t.due := by
  refine runDue_induction (motive := fun s r => s.now ≤ time → (runDue time s r).1.OnTime ∧
    (runDue time s r).1.now ≤ time ∧ ∀ t ∈ (runDue time s r).1.scheduler.live, time < t.due)
    htime ?idle ?job r hs hnow
  case idle =>
    intro s r sch hs hpop hnow
    rw [runDue_none hpop]
    obtain ⟨hdue, rfl⟩ := Scheduler.pop_eq_none hpop
    refine ⟨hs.pop_none hpop, hnow, fun t ht => hdue t ?_⟩
    rwa [← Scheduler.live_live]
  case job =>
    intro s r sch t hs hpop ih hnow
    rw [runDue_some hs htime hpop]
    exact ih ((popped_now hs hpop).trans_le (hs.now_pop hpop).2.2.1)

/-- What is reported comes behind what has been reported before. -/
theorem runDue_append (hs : s.OnTime) (htime : time < maxTime) (r r' : TickReport) :
    runDue time s (r.append r') = ((runDue time s r').1, r.append (runDue time s r').2) := by
  refine runDue_induction (motive := fun s r' => runDue time s (r.append r') =
    ((runDue time s r').1, r.append (runDue time s r').2)) htime ?idle ?job r' hs
  case idle =>
    intro s r' sch hs hpop
    rw [runDue_none hpop, runDue_none hpop]
  case job =>
    intro s r' sch t hs hpop ih
    rw [runDue_some hs htime hpop, runDue_some hs htime hpop, TickReport.append_note, ih]

/-- To run what is due by some time first, and then what is due by a later time, is to run all of it
at once. What is popped first is popped first up to the later time as well. -/
theorem runDue_runDue (hs : s.OnTime) {first : Nat} (hle : first ≤ time) (htime : time < maxTime)
    (r : TickReport) :
    runDue time (runDue first s r).1 (runDue first s r).2 = runDue time s r := by
  refine runDue_induction (motive := fun s r =>
    runDue time (runDue first s r).1 (runDue first s r).2 = runDue time s r)
    (hle.trans_lt htime) ?idle ?job r hs
  case idle =>
    intro s r sch hs hpop
    have hs' : ({ s with scheduler := sch } : Session).OnTime := hs.pop_none hpop
    have hsame : sch.pop time = s.scheduler.pop time := Scheduler.pop_of_pop_eq_none hpop
    rw [runDue_none hpop]
    cases hlater : s.scheduler.pop time with
    | mk sch' next =>
      rw [hlater] at hsame
      cases next with
      | none =>
        rw [runDue_none hlater]
        exact runDue_none hsame r
      | some t =>
        rw [runDue_some hs htime hlater]
        exact runDue_some hs' htime hsame r
  case job =>
    intro s r sch t hs hpop ih
    obtain ⟨hnext, hsch⟩ := Scheduler.pop_eq_some hpop
    have hlater := Scheduler.pop_of_nextDue? (Scheduler.nextDue?_mono hs.nodup hle hnext)
    rw [← hsch] at hlater
    rw [runDue_some hs (hle.trans_lt htime) hpop, ih, runDue_some hs htime hlater]

/-- Time moves on to its end. -/
def passTo (time : Nat) (x : Session × TickReport) : Session × TickReport :=
  ({ x.1 with scheduler := x.1.scheduler.advanceTo time }, x.2)

/-- Time may have moved on before, as long as nothing has come due by that. To pop a timer moves
time on to it in either case, so only an idle end could tell them apart. -/
theorem passTo_runDue (hs : s.OnTime) {first : Nat} (hdue : ∀ t ∈ s.scheduler.live, first < t.due)
    (hle : first ≤ time) (htime : time < maxTime) (r : TickReport) :
    passTo time (runDue time { s with scheduler := s.scheduler.advanceTo first } r) =
      passTo time (runDue time s r) := by
  have hs' : ({ s with scheduler := s.scheduler.advanceTo first } : Session).OnTime :=
    hs.advanceTo fun t ht => (hdue t ht).le
  have hlater := Scheduler.pop_advanceTo hdue time
  cases hpop : s.scheduler.pop time with
  | mk sch next =>
    rw [hpop] at hlater
    cases next with
    | none =>
      have hmax : max (max sch.now first) time = max sch.now time := by
        rw [max_assoc, max_eq_right hle]
      rw [runDue_none hpop, runDue_none hlater]
      simp only [passTo, Scheduler.advanceTo, hmax]
    | some t =>
      rw [runDue_some hs htime hpop, runDue_some hs' htime hlater]
      rfl

end RunDue

/-! ## Time in two steps -/

section Advance

variable {s : Session} (hs : s.OnTime)

theorem advance_eq {ms : Nat} (hnow : s.now + ms < maxTime) :
    s.advance ms = passTo (s.now + ms) (runDue (s.now + ms) s {}) := by
  have htime : laterBy s.now ms = s.now + ms := min_eq_left hnow.le
  rw [← htime]
  rfl

include hs

/-- Before time stops, no timer is overdue when time has passed. -/
theorem advance_onTime {ms : Nat} (hnow : s.now + ms < maxTime) :
    (s.advance ms).1.OnTime ∧ (s.advance ms).1.now = s.now + ms := by
  obtain ⟨hontime, hle, hdue⟩ := runDue_settled hs (Nat.le_add_right s.now ms) hnow {}
  rw [advance_eq hnow]
  exact ⟨hontime.advanceTo fun t ht => (hdue t ht).le, max_eq_right hle⟩

/-- Before time stops, it makes no difference whether time passes at once or in two steps. -/
theorem advance_add {a b : Nat} (hnow : s.now + a + b < maxTime) :
    s.advance (a + b) =
      (((s.advance a).1.advance b).1, (s.advance a).2.append ((s.advance a).1.advance b).2) := by
  have hfirst : s.now + a < maxTime := (Nat.le_add_right _ b).trans_lt hnow
  obtain ⟨hontime, -, hdue⟩ := runDue_settled hs (Nat.le_add_right s.now a) hfirst {}
  have hpass := passTo_runDue hontime hdue (Nat.le_add_right _ b) hnow {}
  have hsecond : (s.advance a).1.advance b =
      passTo (s.now + a + b) (runDue (s.now + a + b) (runDue (s.now + a) s {}).1 {}) := by
    have hnow' := (advance_onTime hs hfirst).2
    rw [advance_eq (by rwa [hnow']), hnow', ← hpass, advance_eq hfirst]
    rfl
  rw [hsecond]
  calc s.advance (a + b)
    _ = passTo (s.now + a + b) (runDue (s.now + a + b) s {}) := by
      rw [advance_eq (by rwa [← Nat.add_assoc]), Nat.add_assoc]
    _ = passTo (s.now + a + b) (runDue (s.now + a + b) (runDue (s.now + a) s {}).1
          ((runDue (s.now + a) s {}).2.append {})) := by
      rw [TickReport.append_empty, runDue_runDue hs (Nat.le_add_right _ b) hnow]
    _ = _ := by
      rw [runDue_append hontime hnow, advance_eq hfirst]
      rfl

end Advance

/-! ## Runs -/

/-- No step in which no time passes makes a timer overdue, unless time has stopped. -/
theorem onTime_timeless (now : Nat) :
    Timeless fun s => s.now = now ∧ (now < maxTime → s.OnTime) where
  load t scope hs := hs
  fire {s run} island hs _ := by
    obtain ⟨suspended, hfire, -⟩ := s.fire_reschedules island run
    exact ⟨hfire.now.trans hs.1, fun hnow => hfire.timely (hs.2 hnow) (hs.1.trans_lt hnow)⟩
  take hs _ _ := hs
  ensure hs he := by
    rcases ensureStore_eq_ok he with ⟨rfl, -⟩ | ⟨-, t, -, rfl⟩
    · exact hs
    · exact hs
  settle {s} p island placeholder c o hs _ _ _ := by
    have hresets := syncTimers_resets s.config.hydration.minIntervalMs s.scheduler
      { island, placeholder, container := p.container, handlers := o.handlers, reads := o.reads
        token := s.nextToken, timers := [], component := c, template := o.template }
    exact ⟨hresets.now.trans hs.1, fun hnow => hresets.timely (hs.2 hnow) (hs.1.trans_lt hnow)⟩
  fail e hs _ := by
    obtain ⟨document, hfail⟩ := fail_eq _ _ e
    rw [hfail]
    exact hs
  record island outcome hs := hs
  unmountOne {s} r id hs := by
    unfold unmountOne
    split
    · exact hs
    · rename_i m _
      have hresets := cancelAll_resets (s.scheduler.cancelToken m.token) (m.timers.map (·.2))
      exact ⟨hresets.now.trans hs.1, fun hnow =>
        hresets.timely ((hs.2 hnow).cancelToken m.token) (hs.1.trans_lt hnow)⟩
  dropStores hs := hs

/-- Time never goes back. -/
theorem laterBy_le_now_advance (s : Session) (ms : Nat) : laterBy s.now ms ≤ (s.advance ms).1.now :=
  Nat.le_max_right _ _

/-- No call makes a timer overdue, as long as time has not stopped. -/
theorem onTime_call {s : Session} (hs : s.now < maxTime → s.OnTime) (c : Call)
    (hnow : (s.call c).now < maxTime) : (s.call c).OnTime := by
  by_cases hc : ∃ ms, c = .advance ms
  · obtain ⟨ms, rfl⟩ := hc
    have hlt : laterBy s.now ms < maxTime := (laterBy_le_now_advance s ms).trans_lt hnow
    have hsum : s.now + ms < maxTime := by
      unfold laterBy at hlt
      omega
    exact (advance_onTime (hs ((Nat.le_add_right _ _).trans_lt hsum)) hsum).1
  · have hkept := (onTime_timeless s.now).call ⟨rfl, hs⟩ fun ms h => hc ⟨ms, h⟩
    exact hkept.2 (hkept.1 ▸ hnow)

/-- As long as time has not stopped, no timer is ever overdue. -/
theorem onTime_run {s : Session} (hs : s.now < maxTime → s.OnTime) (calls : List Call)
    (hnow : (s.run calls).now < maxTime) : (s.run calls).OnTime := by
  induction calls generalizing s with
  | nil => exact hs hnow
  | cons c calls ih => exact ih (onTime_call hs c) hnow

/-- Whatever has been called before, time that passes in two steps leaves the session that it leaves
when it passes at once, and the same is reported. -/
theorem advance_add_of_run {s : Session} (hs : s.scheduler = {}) (calls : List Call) {a b : Nat}
    (hnow : (s.run calls).now + a + b < maxTime) :
    let first := (s.run calls).advance a
    let second := first.1.advance b
    let whole := (s.run calls).advance (a + b)
    second.1 = whole.1 ∧ whole.2.fired = first.2.fired + second.2.fired ∧
      whole.2.rerendered = addAllNew first.2.rerendered second.2.rerendered ∧
      whole.2.errors = first.2.errors ++ second.2.errors := by
  have hstart : s.now < maxTime → s.OnTime := fun _ => by
    unfold OnTime
    rw [hs]
    exact Scheduler.timely_empty _
  have hontime := onTime_run hstart calls (by omega)
  intro first second whole
  have hwhole : whole = (second.1, first.2.append second.2) := advance_add hontime hnow
  rw [hwhole]
  exact ⟨rfl, rfl, rfl, rfl⟩

/-- An island with one interval, between two of its ticks. -/
theorem advance_add_pulse :
    ∃ t, (compile {} (pulseMarkup "900")).template? = some t ∧
      ((staged t).run (pulse t)).pendingJobs = 1 ∧
      ((((staged t).run (pulse t)).advance 1000).1.advance 800).1 =
        (((staged t).run (pulse t)).advance 1800).1 := by
  have ht : ((compile {} (pulseMarkup "900")).template?.map fun t =>
      decide (((staged t).run (pulse t)).pendingJobs = 1 ∧
        ((staged t).run (pulse t)).now + 1000 + 800 < maxTime)) = some true := by
    decide +kernel
  obtain ⟨t, htemplate, ht⟩ := Option.map_eq_some_iff.1 ht
  obtain ⟨hpending, hnow⟩ := of_decide_eq_true ht
  exact ⟨t, htemplate, hpending,
    (advance_add_of_run (staged_unhydrated t).2.2 (pulse t) hnow).1⟩

/-! ## Sessions that come up -/

/-- Whatever comes up by calls. Between them the page may be changed from outside, and the session
may be set up anew. -/
inductive Reachable : Session → Prop where
  | fresh {s : Session} : s.scheduler = {} → Reachable s
  | call {s : Session} (c : Call) : Reachable s → Reachable (s.call c)
  | setUp {s : Session} (document : Document) (config : Config) (registry : Hydration.Registry)
      (storage : Option Storage) (params : Dict String) :
      Reachable s → Reachable { s with document, config, registry, storage, params }

theorem Reachable.onTime {s : Session} (h : s.Reachable) : s.now < maxTime → s.OnTime := by
  induction h with
  | @fresh s hs =>
    intro _
    unfold OnTime
    rw [hs]
    exact Scheduler.timely_empty _
  | call c _ ih => exact onTime_call ih c
  | setUp _ _ _ _ _ _ ih => exact ih

theorem Reachable.run {s : Session} (h : s.Reachable) (calls : List Call) :
    (s.run calls).Reachable :=
  List.foldlRecOn calls _ (motive := Reachable) h fun _ h c _ => .call c h

/-! ## Jobs, one by one -/

/-- The timers that are due up to a time are popped, and their jobs are done, until none is due.
What is reported is added to what has been reported before. -/
inductive Works (time : Nat) :
    Session → TickReport → List (Timer (String × Job)) → Session × TickReport → Prop where
  | idle {s : Session} {r : TickReport} {sch : Scheduler (String × Job)} :
      s.scheduler.pop time = (sch, none) → Works time s r [] ({ s with scheduler := sch }, r)
  | job {s : Session} {r : TickReport} {sch : Scheduler (String × Job)}
      {t : Timer (String × Job)} {done : List (Timer (String × Job))} {x : Session × TickReport} :
      s.scheduler.pop time = (sch, some t) →
        Works time (s.popped sch t).1 (r.note (s.popped sch t).2) done x →
          Works time s r (t :: done) x

section Works

variable {s : Session} {time : Nat} {r : TickReport}

/-- There is an end to the jobs, since each of them makes what is left to do less. -/
theorem exists_works (hs : s.OnTime) (htime : time < maxTime) (r : TickReport) :
    ∃ done, Works time s r done (runDue time s r) := by
  refine runDue_induction (motive := fun s r => ∃ done, Works time s r done (runDue time s r))
    htime ?idle ?job r hs
  case idle =>
    intro s r sch _ hpop
    rw [runDue_none hpop]
    exact ⟨[], .idle hpop⟩
  case job =>
    rintro s r sch t hs hpop ⟨done, hdone⟩
    rw [runDue_some hs htime hpop]
    exact ⟨t :: done, .job hpop hdone⟩

/-- No job is done before it is due, nor one that is due later. -/
theorem Works.in_order {done : List (Timer (String × Job))} {x : Session × TickReport}
    (h : Works time s r done x) (hs : s.OnTime) (htime : time < maxTime) :
    (s.now :: done.map (·.due)).Pairwise (· ≤ ·) ∧ ∀ t ∈ done, t.due ≤ time := by
  rw [← List.isChain_iff_pairwise]
  induction h with
  | idle => exact ⟨.singleton _, List.forall_mem_nil _⟩
  | job hpop _ ih =>
    obtain ⟨hchain, hdue⟩ := ih (popped_onTime hs htime hpop)
    rw [popped_now hs hpop] at hchain
    obtain ⟨-, hnow, hle, -⟩ := hs.now_pop hpop
    exact ⟨.cons_cons hnow hchain, List.forall_mem_cons.2 ⟨hle, hdue⟩⟩

end Works

/-- Before time stops, to let time pass has an end, whatever has been called before: after so many
jobs, done in the order in which they are due, none is due any more, and this is what the session is
left with. -/
theorem advance_ends {s : Session} (hs : s.Reachable) {ms : Nat} (hnow : s.now + ms < maxTime) :
    ∃ done x, Works (s.now + ms) s {} done x ∧
      (s.now :: done.map (·.due)).Pairwise (· ≤ ·) ∧ (∀ t ∈ done, t.due ≤ s.now + ms) ∧
      (∀ t ∈ x.1.scheduler.live, s.now + ms < t.due) ∧
      s.advance ms = ({ x.1 with scheduler := x.1.scheduler.advanceTo (s.now + ms) }, x.2) := by
  have hontime := hs.onTime ((Nat.le_add_right _ _).trans_lt hnow)
  obtain ⟨done, hdone⟩ := exists_works hontime hnow {}
  obtain ⟨horder, hdue⟩ := hdone.in_order hontime hnow
  obtain ⟨-, -, hleft⟩ := runDue_settled hontime (Nat.le_add_right _ _) hnow {}
  exact ⟨done, _, hdone, horder, hdue, hleft, advance_eq hnow⟩

/-- An interval whose sequence is suspended twice for no time, once on each side of a chain. -/
def echoMarkup : String :=
  "<Var name=\"a\" type=\"boolean\"/><If var=\"a\"><OnInterval interval=\"200\"/></If>"
    ++ "<Else><OnInterval interval=\"900\"><Sequence><Toggle var=\"a\"/><Delay ms=\"0\"/>"
    ++ "<Toggle var=\"a\"/><Delay ms=\"0\"/></Sequence></OnInterval></Else>"

/-- Time passes while an interval goes on and a sequence is suspended until now. -/
theorem advance_ends_echo :
    ∃ t, (compile {} echoMarkup).template? = some t ∧ ((staged t).run (pulse t)).Reachable ∧
      ((staged t).run (pulse t)).scheduler.live.map (·.due) = [900, 0] ∧
      ((staged t).run (pulse t)).now + 2000 < maxTime ∧
      ∃ done x, Works (((staged t).run (pulse t)).now + 2000) ((staged t).run (pulse t)) {} done x ∧
        ∀ t' ∈ x.1.scheduler.live, ((staged t).run (pulse t)).now + 2000 < t'.due := by
  have ht : ((compile {} echoMarkup).template?.map fun t =>
      decide (((staged t).run (pulse t)).scheduler.live.map (·.due) = [900, 0] ∧
        ((staged t).run (pulse t)).now + 2000 < maxTime)) = some true := by
    decide +kernel
  obtain ⟨t, htemplate, ht⟩ := Option.map_eq_some_iff.1 ht
  obtain ⟨hdue, hnow⟩ := of_decide_eq_true ht
  have hreachable := (Reachable.fresh (staged_unhydrated t).2.2).run (pulse t)
  obtain ⟨done, x, hdone, -, -, hleft, -⟩ := advance_ends hreachable hnow
  exact ⟨t, htemplate, hreachable, hdue, hnow, done, x, hdone, hleft⟩

end Session

end Archipelago
