import Archipelago.Resident
import Archipelago.Session.Firing

/-! # Bringing islands to life -/

namespace Archipelago

open Hydration (MountedComponent State)

/-- One pass over the placeholders of a container. -/
structure HydrationResult where
  hydrated : Nat := 0
  failed : Nat := 0
  errors : List HydrationError := []
  /-- Placeholders that no island was given for. -/
  warnings : List String := []

namespace Session

/-- What a pass goes by. -/
structure Pass where
  container : NodeId
  resident : Resident
  /-- The islands by their names. -/
  islands : Dict Island
  /-- The time of day, as text. -/
  time : String

/-- Subscribes to every variable. -/
def subscribeAll (store : Store) : List String → Except StoreError Store
  | [] => .ok store
  | name :: names => do
    let (store, _) ← store.subscribe name
    subscribeAll store names

/-- Fresh variables of a template. -/
def newStore (s : Session) (t : LoadedTemplate) (resident : Resident) :
    Except StoreError Store := do
  let blank : Store :=
    { params := s.params, resident := resident.toValue, limits := s.config.eval }
  let blank := if s.storage.isSome then { blank with scope := t.scope } else blank
  let kept ← (⟨blank, s.storage⟩ : KeptStore).declareAll t.template.decls
  subscribeAll kept.store kept.store.names

/-- The variables of a template, which come to life when they are first asked for. -/
def ensureStore (s : Session) (template : String) (resident : Resident) :
    Except String (Session × Store) :=
  match Dict.get? s.stores template with
  | some store => .ok (s, store)
  | none =>
    match Dict.get? s.templates template with
    | none => .error s!"template {template} is not loaded"
    | some t =>
      match s.newStore t resident with
      | .ok store => .ok ({ s with stores := Dict.insert s.stores template store }, store)
      | .error e => .error e.message

/-- The variables read anywhere in a tree. -/
def subtreeReads (root : Template.Node) : List String :=
  addAllNew [] (root.walk.flatMap Template.Node.reads)

/-- What an island shows first, with its handlers, its reads and the template that drives it. -/
structure Opening where
  html : String
  handlers : List Page.Handler := []
  reads : List String := []
  template : Option String := none

/-- A component with content of its own shows it; any other is rendered from its template. -/
def opening (s : Session) (resident : Resident) (island : Island) (c : MountedComponent) :
    Except String (Session × Opening) :=
  match c.content with
  | some html => .ok (s, { html })
  | none => do
    let (s, store) ← s.ensureStore island.templateId resident
    let content := s.renderer.renderIsland store.toScope island
    .ok (s,
      { html := Page.Node.htmlAll content.children, handlers := content.handlers
        reads := subtreeReads island.node, template := some island.templateId })

/-- Puts a component into its placeholder. -/
def settle (s : Session) (p : Pass) (island : Island) (placeholder : NodeId)
    (c : MountedComponent) (o : Opening) : Session :=
  let document := s.document.setInnerHtml placeholder o.html
  let (scheduler, m) := syncTimers s.config.hydration.minIntervalMs s.scheduler
    { island, placeholder, container := p.container, handlers := o.handlers, reads := o.reads
      token := s.nextToken, timers := [], component := c, template := o.template }
  let document := document.setAttr placeholder Hydration.stateAttr State.hydrated.name
  { s with
    document := document.setAttr placeholder Hydration.timeAttr p.time
    scheduler
    mounted := Dict.insert s.mounted island.id m
    nextToken := s.nextToken + 1 }

/-- The places of the handlers of a kind. -/
def handlersOf (kind : EventKind) (handlers : List Page.Handler) : List Nat :=
  handlers.zipIdx.filterMap fun (h, i) => if h.kind = kind then some i else none

/-- Fires the mount handlers; one that fails does not stop the others. -/
def fireMounts (s : Session) (island : String) (places : List Nat) : Session :=
  places.foldl (fun s i => (s.dispatch island .mount i).1) s

/-- Mounts one island. -/
def mount (s : Session) (p : Pass) (island : Island) (placeholder : NodeId) :
    Session × Except HydrationError Unit :=
  let threw (message : String) : HydrationError := .mountThrew island.id island.component message
  if Dict.contains s.mounted island.id then
    (s, .error (threw "island id is already mounted"))
  else match s.registry.mount island p.resident.toValue with
    | .error (.notFound component) => (s, .error (.componentNotFound island.id component))
    | .error (.failed message) => (s, .error (threw message))
    | .ok c =>
      match s.opening p.resident island c with
      | .error message => (s, .error (threw message))
      | .ok (s, o) =>
        let s := s.settle p island placeholder c o
        (s.fireMounts island.id (handlersOf .mount o.handlers), .ok ())

/-- What a placeholder shows in place of an island that failed. -/
def fallbackHtml (s : Session) (e : HydrationError) : String :=
  let settings := s.config.hydration
  let shown := "<p>" ++ Page.escapeText settings.fallbackMessage ++ "</p>"
  let reason := if settings.devMode then "<pre>" ++ Page.escapeText e.message ++ "</pre>" else ""
  Page.openTag "div" [("class", "tessera-island-error"), ("role", "alert")]
    ++ shown ++ reason ++ Page.closeTag "div"

/-- Marks a placeholder as failed. One that is taken by an island keeps what it shows. -/
def fail (s : Session) (placeholder : NodeId) (e : HydrationError) : Session :=
  let document := s.document.setAttr placeholder Hydration.stateAttr State.failed.name
  if s.mounted.any (·.2.placeholder = placeholder) then { s with document }
  else { s with document := document.setInnerHtml placeholder (s.fallbackHtml e) }

/-- Records the latest attempt at an island. -/
def record (s : Session) (island : Island) (outcome : HydrationOutcome) : Session :=
  { s with metrics := Dict.insert s.metrics island.id { component := island.component, outcome } }

/-- Takes a placeholder that is free. -/
def hydrateOne (p : Pass) (s : Session) (r : HydrationResult) (placeholder : NodeId) :
    Session × HydrationResult :=
  match s.document.attr? placeholder Page.islandAttr with
  | none => (s, r)
  | some id =>
    match Dict.get? p.islands id with
    | none =>
      (s, { r with warnings := r.warnings ++ [s!"no island config for placeholder '{id}'"] })
    | some island =>
      if (State.ofAttr (s.document.attr? placeholder Hydration.stateAttr)).isFree then
        let document := s.document.setAttr placeholder Hydration.stateAttr State.hydrating.name
        match ({ s with document } : Session).mount p island placeholder with
        | (s, .ok ()) => (s.record island .hydrated, { r with hydrated := r.hydrated + 1 })
        | (s, .error e) =>
          ((s.fail placeholder e).record island .failed,
            { r with failed := r.failed + 1, errors := r.errors ++ [e] })
      else (s, r)

/-- Hydrates the islands of a container. Only a container that is missing is an error; what goes
wrong with single islands is part of the result. -/
def hydrate (s : Session) (containerId : String) (resident : Resident) (islands : List Island)
    (time : String) : Session × Except HydrationError HydrationResult :=
  match s.document.byId? containerId with
  | none => (s, .error (.containerNotFound containerId))
  | some container =>
    let p : Pass :=
      ⟨container, resident, Dict.ofList (islands.map fun i => (i.id, i)), time⟩
    let (s, r) := (s.document.placeholders container).foldl
      (fun sr placeholder => hydrateOne p sr.1 sr.2 placeholder) (s, {})
    (s, .ok r)

end Session

end Archipelago
