import Archipelago.Session.Firing

/-! # Advancing time -/

namespace Archipelago

/-- What happened while time went on. -/
structure TickReport where
  fired : Nat := 0
  rerendered : List String := []
  errors : List HydrationError := []

namespace TickReport

/-- A job that has been done goes on the report, whether it has failed or not. -/
def add (r : TickReport) : Except HydrationError Firing → TickReport
  | .ok f =>
    { r with fired := r.fired + 1, rerendered := addAllNew r.rerendered f.rerendered }
  | .error e => { r with fired := r.fired + 1, errors := r.errors ++ [e] }

end TickReport

namespace Session

/-- Fires an interval handler, if it is still one. -/
def tick (s : Session) (island : String) (index : Nat) :
    Session × Option (Except HydrationError Firing) :=
  match (Dict.get? s.mounted island).bind fun m => handler? m index fun h => h.kind = .interval with
  | none => (s, none)
  | some h =>
    let (s, r) := s.fire island (Action.run h.locals h.actions)
    (s, some r)

/-- Does a job; one of an island that is gone, or of a handler that is gone, does nothing. -/
def runJob (s : Session) (island : String) : Job → Session × Option (Except HydrationError Firing)
  | .interval index => s.tick island index
  | .resume c =>
    if Dict.contains s.mounted island then
      let (s, r) := s.fire island c.resume
      (s, some r)
    else (s, none)

/-- What is left to do up to a time, in the order of its weight. -/
structure Backlog where
  /-- The time that has not passed. -/
  time : Nat
  /-- Intervals that are due now. -/
  intervals : Nat
  /-- Suspended sequences that are due now, each with its steps. -/
  steps : Nat
deriving DecidableEq, Repr

namespace Backlog

/-- The parts of a backlog, the one of most weight first. -/
def toPair (b : Backlog) : Nat × Nat × Nat := (b.time, b.intervals, b.steps)

/-- Less time is less to do, whatever there is of the rest. -/
def less (a b : Backlog) : Prop :=
  a.time < b.time ∨ a.time = b.time ∧
    (a.intervals < b.intervals ∨ a.intervals = b.intervals ∧ a.steps < b.steps)

instance (a b : Backlog) : Decidable (a.less b) := by unfold less; infer_instance

theorem less.lex {a b : Backlog} (h : a.less b) :
    Prod.Lex (· < ·) (Prod.Lex (· < ·) (· < ·)) a.toPair b.toPair := by
  rcases h with h | ⟨e, h | ⟨e', h⟩⟩
  · exact .left _ _ h
  · unfold toPair; rw [e]; exact .right _ (.left _ _ h)
  · unfold toPair; rw [e, e']; exact .right _ (.right _ h)

end Backlog

/-- How many steps a job has, itself counted as one. -/
def Job.weight : Job → Nat
  | .interval _ => 1
  | .resume c => c.size + 1

/-- What is left to do at a session. -/
def backlog (time : Nat) (s : Session) : Backlog :=
  let due := s.scheduler.live.filter (·.due ≤ s.now)
  { time := time - s.now
    intervals := (due.filter (·.period.isSome)).length
    steps := (due.filter (·.period.isNone)).foldr (fun t n => t.payload.2.weight + n) 0 }

/-- Runs what is due up to a time. Each job makes the backlog smaller: time moves on, or an
interval is put off, or a sequence is behind one more of its delays. -/
def runDue (time : Nat) (s : Session) (r : TickReport) : Session × TickReport :=
  match s.scheduler.pop time with
  | (scheduler, none) => ({ s with scheduler }, r)
  | (scheduler, some timer) =>
    let next := ({ s with scheduler } : Session).runJob timer.payload.1 timer.payload.2
    let r := match next.2 with
      | some outcome => r.add outcome
      | none => r
    if _h : (backlog time next.1).less (backlog time s) then runDue time next.1 r else (next.1, r)
termination_by (backlog time s).toPair
decreasing_by exact Backlog.less.lex _h

/-- Lets time pass, and runs every timer and every suspended sequence that comes due. -/
def advance (s : Session) (ms : Nat) : Session × TickReport :=
  let time := laterBy s.now ms
  let (s, r) := runDue time s {}
  ({ s with scheduler := s.scheduler.advanceTo time }, r)

end Session

end Archipelago
