import Archipelago.Action.Writes

/-! # Running the actions of an event -/

namespace Archipelago

/-- The steps behind a delay, with the bindings captured at the event. -/
structure Continuation where
  delayMs : Nat
  steps : List Action
  locals : Dict Value

/-- A store under actions, with all that they have done to it. -/
structure Trace where
  store : Store
  changed : List String := []
  saves : List (String × String) := []
  notices : List Notice := []

namespace Trace

/-- A batch that has been carried out goes on the trace: a name that changes again stays where it
is. -/
def add (t : Trace) (store : Store) (c : Commit) : Trace where
  store := store
  changed := addAllNew t.changed c.changed
  saves := t.saves ++ c.saves
  notices := t.notices ++ c.notices

end Trace

/-- What failed, and how far the run had come: earlier steps stay. -/
structure Failure where
  error : ActionError
  trace : Trace

/-- Actions fail with what has been done so far, or they leave a trace and what they have suspended.
-/
abbrev Outcome := Except Failure (Trace × List Continuation)

namespace Action

/-- One step that is neither a sequence nor a delay. -/
def runLeaf (locals : Dict Value) (a : Action) (t : Trace) : Except Failure Trace :=
  match a.writes t.store locals with
  | .error e => .error ⟨e, t⟩
  | .ok ws =>
    match t.store.apply ws with
    | .error e => .error ⟨.ofStore e, t⟩
    | .ok (store, commit) => .ok (t.add store commit)

mutual

/-- Runs steps up to the first delay at any depth. -/
def runSequence (locals : Dict Value) :
    List Action → Trace → Except Failure (Trace × Option Continuation)
  | [], t => .ok (t, none)
  | a :: as, t => do
    let (t, suspended) ← runStep locals a t
    match suspended with
    | some (ms, rest) => .ok (t, some ⟨ms, rest ++ as, locals⟩)
    | none => runSequence locals as t

/-- One step; a delay in it leaves its duration and the steps behind it. -/
def runStep (locals : Dict Value) :
    Action → Trace → Except Failure (Trace × Option (Nat × List Action))
  | delay ms, t => .ok (t, some (ms, []))
  | sequence steps, t => do
    let (t, suspended) ← runSequence locals steps t
    .ok (t, suspended.map fun c => (c.delayMs, c.steps))
  | leaf, t => do .ok (← runLeaf locals leaf t, none)

end

/-- Runs the actions of an event. A sequence is suspended by itself; a delay among the actions
suspends all behind it. -/
def run (locals : Dict Value) : List Action → Trace → Outcome
  | [], t => .ok (t, [])
  | delay ms :: rest, t => .ok (t, [⟨ms, rest, locals⟩])
  | sequence steps :: rest, t => do
    let (t, suspended) ← runSequence locals steps t
    let (t, more) ← run locals rest t
    .ok (t, suspended.toList ++ more)
  | leaf :: rest, t => do run locals rest (← runLeaf locals leaf t)

/-- One action without bindings, up to its first delay. -/
def execute (a : Action) (t : Trace) : Except Failure Trace := do
  .ok (← runStep [] a t).1

end Action

namespace Continuation

/-- A continuation goes on as a sequence, whatever it was cut out of. -/
def resume (c : Continuation) (t : Trace) : Outcome := do
  let (t, suspended) ← Action.runSequence c.locals c.steps t
  .ok (t, suspended.toList)

/-- How many steps are still to run, nested ones included. -/
def size (c : Continuation) : Nat := Action.sizeAll c.steps

end Continuation

end Archipelago
