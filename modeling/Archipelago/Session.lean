import Archipelago.Config
import Archipelago.Document
import Archipelago.Hydration
import Archipelago.Page.Render
import Archipelago.Scheduler
import Archipelago.Store.Kept
import Archipelago.Template

/-! # Sessions: the live side of a page -/

namespace Archipelago

open Hydration (MountedComponent Registry)

namespace Session

/-- What a timer of the session does to its island. -/
inductive Job where
  | interval (index : Nat)
  | resume (c : Continuation)

/-- An island that has been brought to life. -/
structure Mounted where
  island : Island
  placeholder : NodeId
  container : NodeId
  /-- The handlers of the latest rendering. -/
  handlers : List Page.Handler
  /-- The variables whose change renders the island anew. -/
  reads : List String
  /-- Cancels its timers and its suspended sequences. -/
  token : Token
  /-- The interval handlers with their timers. -/
  timers : List (Nat × Nat)
  component : MountedComponent
  /-- The template that drives the island, if one does. -/
  template : Option String

/-- How an attempt at an island has ended. -/
inductive HydrationOutcome where
  | hydrated
  | failed
deriving DecidableEq, Repr

namespace HydrationOutcome

def name : HydrationOutcome → String
  | hydrated => "Hydrated"
  | failed => "Failed"

end HydrationOutcome

/-- The latest attempt to hydrate an island. -/
structure Metrics where
  component : String
  outcome : HydrationOutcome
  /-- Renderings behind the first one. -/
  renders : Nat := 0
deriving DecidableEq, Repr

/-- A template and where its variables are kept. -/
structure LoadedTemplate where
  template : Template
  scope : String

end Session

/-- All that the client side of one page holds. -/
structure Session where
  document : Document := {}
  config : Config := {}
  registry : Registry := []
  storage : Option Storage := none
  params : Dict String := []
  templates : Dict Session.LoadedTemplate := []
  /-- The live variables of the templates, each told of its changes. -/
  stores : Dict Store := []
  /-- In the order in which they were hydrated. -/
  mounted : Dict Session.Mounted := []
  scheduler : Scheduler (String × Session.Job) := {}
  metrics : Dict Session.Metrics := []
  nextToken : Token := 0

namespace Session

/-- Makes a template known; its variables come to life with its first island. -/
def loadTemplate (s : Session) (t : Template) (scope : String) : Session :=
  { s with templates := Dict.insert s.templates t.id ⟨t, scope⟩ }

/-- Virtual time. -/
def now (s : Session) : Nat := s.scheduler.now

/-- How many timers there are to come. -/
def pendingJobs (s : Session) : Nat := s.scheduler.pending

/-- The renderer of the config. -/
def renderer (s : Session) : Page.Renderer := .ofConfig s.config

/-! ## Timers -/

/-- The intervals among the handlers, with their periods. -/
def intervals (least : Nat) (handlers : List Page.Handler) : List (Nat × Nat) :=
  handlers.zipIdx.filterMap fun (h, i) =>
    if h.kind = .interval then some (i, max (h.intervalMs.getD least) least) else none

/-- Schedules intervals, first to last. -/
def schedule (token : Token) (island : String) :
    List (Nat × Nat) → Scheduler (String × Job) → Scheduler (String × Job) × List (Nat × Nat)
  | [], scheduler => (scheduler, [])
  | (index, period) :: rest, scheduler =>
    let (scheduler, timer) := scheduler.every period token (island, .interval index)
    let (scheduler, more) := schedule token island rest scheduler
    (scheduler, (index, timer) :: more)

/-- All these timers go. -/
def cancelAll (scheduler : Scheduler (String × Job)) (timers : List Nat) :
    Scheduler (String × Job) :=
  timers.foldl (fun s timer => (s.cancel timer).1) scheduler

/-- Brings the timers of an island in step with its handlers. As long as the same handlers are
intervals, their timers go on. -/
def syncTimers (least : Nat) (scheduler : Scheduler (String × Job)) (m : Mounted) :
    Scheduler (String × Job) × Mounted :=
  let wanted := intervals least m.handlers
  if wanted.map (·.1) = m.timers.map (·.1) then (scheduler, m)
  else
    let scheduler := cancelAll scheduler (m.timers.map (·.2))
    let (scheduler, timers) := schedule m.token m.island.id wanted scheduler
    (scheduler, { m with timers })

end Session

end Archipelago
