/-! # Timers over virtual time -/

namespace Archipelago

universe u

/-- Times are whole milliseconds up to this one, where they stop. -/
def maxTime : Nat := 0xffffffffffffffff

/-- A time so many milliseconds from now; the end of time is not passed. -/
def laterBy (now ms : Nat) : Nat := min (now + ms) maxTime

/-- All timers of one token are cancelled together. -/
abbrev Token := Nat

/-- Something to be done at a time. -/
structure Timer (α : Type u) where
  id : Nat
  due : Nat
  /-- An interval is due again after each period. -/
  period : Option Nat
  token : Token
  payload : α
deriving Repr

namespace Timer

variable {α : Type u}

/-- How a timer is named. -/
def idText (id : Nat) : String := s!"task#{id}"

/-- Earlier timers come first, and of those due together the one that was scheduled first. -/
def before (s t : Timer α) : Bool := s.due < t.due || (s.due = t.due && s.id < t.id)

end Timer

/-- What is to be done, and what has been called off. -/
structure Scheduler (α : Type u) where
  now : Nat := 0
  nextId : Nat := 0
  timers : List (Timer α) := []
  cancelled : List Token := []
deriving Repr

namespace Scheduler

variable {α : Type u}

/-- A timer is live as long as its token has not been cancelled. -/
def isLive (s : Scheduler α) (t : Timer α) : Bool := !s.cancelled.contains t.token

/-- The timers that are live, in order. -/
def live (s : Scheduler α) : List (Timer α) := s.timers.filter s.isLive

/-- The number of live timers. -/
def pending (s : Scheduler α) : Nat := s.live.length

/-- A new timer with a number of its own. -/
def add (s : Scheduler α) (due : Nat) (period : Option Nat) (token : Token) (payload : α) :
    Scheduler α × Nat :=
  ({ s with
      nextId := s.nextId + 1
      timers := s.timers ++ [⟨s.nextId, due, period, token, payload⟩] },
    s.nextId)

/-- A timer that runs once. -/
def once (s : Scheduler α) (ms : Nat) (token : Token) (payload : α) : Scheduler α × Nat :=
  s.add (laterBy s.now ms) none token payload

/-- A period has at least one millisecond. -/
def every (s : Scheduler α) (ms : Nat) (token : Token) (payload : α) : Scheduler α × Nat :=
  let period := max ms 1
  s.add (laterBy s.now period) (some period) token payload

/-- All timers of a token go, those to come as well. -/
def cancelToken (s : Scheduler α) (token : Token) : Scheduler α :=
  { s with cancelled := token :: s.cancelled }

/-- Removes a timer and tells whether it was there. -/
def cancel (s : Scheduler α) (id : Nat) : Scheduler α × Bool :=
  ({ s with timers := s.timers.filter (·.id ≠ id) }, s.timers.any (·.id = id))

/-- The first of the timers that are due. -/
def nextDue? (timers : List (Timer α)) (time : Nat) : Option (Timer α) :=
  (timers.filter (·.due ≤ time)).foldl (fun best t =>
    match best with
    | some b => if t.before b then some t else some b
    | none => some t) none

/-- Takes a timer out, or puts an interval off by one period. -/
def fired (t : Timer α) : List (Timer α) → List (Timer α)
  | [] => []
  | u :: rest =>
    if u.id = t.id then
      match u.period with
      | some period => { u with due := laterBy u.due period } :: rest
      | none => rest
    else u :: fired t rest

/-- The next timer that is due, with time moved on to it; cancelled timers are dropped. -/
def pop (s : Scheduler α) (time : Nat) : Scheduler α × Option (Timer α) :=
  let timers := s.live
  match nextDue? timers time with
  | some t => ({ s with timers := fired t timers, now := max s.now t.due }, some t)
  | none => ({ s with timers }, none)

/-- Moves time on without running anything. -/
def advanceTo (s : Scheduler α) (time : Nat) : Scheduler α := { s with now := max s.now time }

/-- How often a timer is due up to a time. -/
def firings (time : Nat) (t : Timer α) : Nat :=
  if t.due ≤ time then
    match t.period with
    | some period => (time - t.due) / period + 1
    | none => 1
  else 0

/-- Pops at most `fuel` timers, with the time of each. -/
def drainWithin (time : Nat) : (fuel : Nat) → Scheduler α → Scheduler α × List (Nat × Timer α)
  | 0, s => (s, [])
  | fuel + 1, s =>
    match s.pop time with
    | (s, some t) =>
      let (rest, more) := drainWithin time fuel s
      (rest, (s.now, t) :: more)
    | (s, none) => (s, [])

/-- Pops all that is due up to a time. -/
def drain (s : Scheduler α) (time : Nat) : Scheduler α × List (Nat × Timer α) :=
  drainWithin time (s.live.foldr (fun t n => firings time t + n) 1) s

end Scheduler

end Archipelago
