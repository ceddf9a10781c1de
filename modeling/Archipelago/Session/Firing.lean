import Archipelago.Session

/-! # Firing the events of islands -/

namespace Archipelago

/-- What one event did. -/
structure Firing where
  /-- The variables that changed, in the order of their changes. -/
  changed : List String := []
  /-- How many sequences were suspended. -/
  pending : Nat := 0
  rerendered : List String := []
deriving DecidableEq, Repr

namespace Session

/-- Does the island show one of the names of the template? -/
def Mounted.shows (m : Mounted) (template : String) (names : List String) : Bool :=
  m.template = some template && names.any (· ∈ m.reads)

/-- Renders a mounted island anew from the store. -/
def rerender (s : Session) (store : Store) (m : Mounted) : Session :=
  let content := s.renderer.renderIsland store.toScope m.island
  let (scheduler, m) :=
    syncTimers s.config.hydration.minIntervalMs s.scheduler { m with handlers := content.handlers }
  { s with
    document := s.document.setInnerHtml m.placeholder (Page.Node.htmlAll content.children)
    scheduler
    mounted := Dict.insert s.mounted m.island.id m
    metrics := match Dict.get? s.metrics m.island.id with
      | some x => Dict.insert s.metrics m.island.id { x with renders := x.renders + 1 }
      | none => s.metrics }

/-- Renders the islands of a template anew that show one of the changed variables. -/
def refresh (s : Session) (template : String) (store : Store) (changed : List String) :
    Session × List String :=
  let stale := (s.mounted.map (·.2)).filter (·.shows template changed)
  (stale.foldl (fun s m => s.rerender store m) s, stale.map (·.island.id))

/-- Puts off what the sequences of an island still have to do. -/
def suspend (s : Session) (m : Mounted) (pending : List Continuation) : Session :=
  { s with
    scheduler := pending.foldl (fun sch c =>
      (sch.once c.delayMs m.token (m.island.id, .resume c)).1) s.scheduler }

/-- Runs an event of an island on the variables of its template, refreshes the page and puts off
what is suspended. Steps before a failing one stay, so the page is refreshed either way. -/
def fire (s : Session) (island : String) (run : Trace → Outcome) :
    Session × Except HydrationError Firing :=
  match Dict.get? s.mounted island with
  | none => (s, .error (.unknownIsland island))
  | some m =>
    match m.template with
    | none => (s, .ok {})
    | some template =>
      match Dict.get? s.stores template with
      | none => (s, .error (.unknownIsland island))
      | some store =>
        let outcome := run { store }
        let t := match outcome with
          | .ok (t, _) => t
          | .error f => f.trace
        let kept := (⟨store, s.storage⟩ : KeptStore).after t
        let s := { s with
          stores := Dict.insert s.stores template kept.store, storage := kept.storage }
        let (s, rerendered) := s.refresh template t.store (t.notices.map (·.name))
        match outcome with
        | .ok (t, pending) =>
          (s.suspend m pending, .ok ⟨t.changed, pending.length, rerendered⟩)
        | .error f => (s, .error (.action island f.error))

/-- The handler at an index of an island, if it has the property. -/
def handler? (m : Mounted) (index : Nat) (p : Page.Handler → Bool) : Option Page.Handler :=
  m.handlers[index]?.filter p

/-- Fires a handler that belongs to no field. -/
def dispatch (s : Session) (island : String) (kind : EventKind) (index : Nat) :
    Session × Except HydrationError Firing :=
  match Dict.get? s.mounted island with
  | none => (s, .error (.unknownIsland island))
  | some m =>
    match handler? m index fun h => h.kind = kind && h.input.isNone with
    | none => (s, .error (.unknownHandler island kind index))
    | some h => s.fire island (Action.run h.locals h.actions)

/-- Writes a variable by a field. -/
def writeField (var : String) (value : Value) (t : Trace) : Except Failure Trace :=
  match t.store.set var value with
  | .ok (store, commit) => .ok (t.add store commit)
  | .error e => .error ⟨.ofStore e, t⟩

/-- What a field makes of a value: a checkbox knows true and false, and texts. -/
def fieldValue (b : Page.InputBinding) (v : Value) : Value :=
  match v with
  | .bool _ | .string _ => v
  | v => if b.checkbox then .bool v.isTruthy else v

/-- Writes the new value of a field, and then fires its handler. -/
def change (s : Session) (island : String) (index : Nat) (value : Value) :
    Session × Except HydrationError Firing :=
  match Dict.get? s.mounted island with
  | none => (s, .error (.unknownIsland island))
  | some m =>
    match handler? m index fun h => h.kind = .change with
    | some { input := some b, actions, locals, .. } =>
      s.fire island fun t => do
        Action.run locals actions (← writeField b.var (fieldValue b value) t)
    | _ => (s, .error (.unknownHandler island .change index))

end Session

end Archipelago
