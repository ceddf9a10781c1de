import Archipelago.Action
import Archipelago.Island
import Archipelago.Page.Resident
import Archipelago.Store.Error

/-! # Placeholders, the components that take their places, and errors of hydration -/

namespace Archipelago

namespace Hydration

/-! ## States of placeholders -/

/-- What has become of a placeholder, as its attribute says. -/
inductive State where
  | unmounted
  | hydrating
  | hydrated
  | failed
deriving DecidableEq, Repr

namespace State

def name : State → String
  | unmounted => "unmounted"
  | hydrating => "hydrating"
  | hydrated => "hydrated"
  | failed => "failed"

/-- A placeholder without a state, or with an unknown one, is not mounted. -/
def ofAttr : Option String → State
  | some "hydrating" => hydrating
  | some "hydrated" => hydrated
  | some "failed" => failed
  | _ => unmounted

/-- May a placeholder in this state be taken? -/
def isFree : State → Bool
  | unmounted | failed => true
  | hydrating | hydrated => false

@[simp] theorem ofAttr_name (s : State) : ofAttr (some s.name) = s := by cases s <;> rfl

end State

/-- The attribute that holds the state of a placeholder. -/
def stateAttr : String := "data-tessera-state"

/-- The attribute that holds the time at which a placeholder was taken. -/
def timeAttr : String := "data-tessera-hydrated-at"

/-! ## Components -/

/-- A component in its place. -/
structure MountedComponent where
  /-- What it shows; without it the island is rendered from its template. -/
  content : Option String := none
  /-- Why it cannot be released. -/
  unmountError : Option String := none
deriving DecidableEq, Repr

/-- Why a component could not be mounted. -/
inductive MountError where
  | notFound (component : String)
  | failed (message : String)
deriving DecidableEq, Repr

/-- Makes a component for an island and resident data, or tells why it does not. -/
abbrev Factory := Island → Value → Except String MountedComponent

/-- Components of the host by name; they go before the built-in ones. -/
abbrev Registry := Dict Factory

/-- The component that is built in for an island: its tag has to be the one that it names. -/
def mountBuiltIn (island : Island) (resident : Value) : Except MountError MountedComponent :=
  match island.node.dsl?.filter fun t => t.name = island.component with
  | none => .error (.notFound island.component)
  | some t =>
    if DslTag.drivesIsland t.name then .ok {}
    else if t.group ≠ .resident then .error (.notFound island.component)
    else
      match Page.Resident.components t.name island.props resident with
      | some html => .ok { content := some html }
      | none => .error (.notFound island.component)

namespace Registry

/-- The component of an island: the one that the registry makes, or else a built-in one. -/
def mount (r : Registry) (island : Island) (resident : Value) :
    Except MountError MountedComponent :=
  match Dict.get? r island.component with
  | some factory => (factory island resident).mapError .failed
  | none => mountBuiltIn island resident

end Registry

end Hydration

/-! ## Errors -/

/-- The kinds of what can go wrong when islands come to life. -/
inductive HydrationErrorKind where
  | componentNotFound
  | mountThrew
  | containerNotFound
  | unknownIsland
  | unknownHandler
  | action
deriving DecidableEq, Repr

namespace HydrationErrorKind

def name : HydrationErrorKind → String
  | componentNotFound => "ComponentNotFound"
  | mountThrew => "MountThrew"
  | containerNotFound => "ContainerNotFound"
  | unknownIsland => "UnknownIsland"
  | unknownHandler => "UnknownHandler"
  | action => "Action"

end HydrationErrorKind

/-- What has gone wrong, and where. -/
inductive HydrationError where
  | componentNotFound (island component : String)
  | mountThrew (island component message : String)
  | containerNotFound (id : String)
  | unknownIsland (island : String)
  | unknownHandler (island : String) (kind : EventKind) (index : Nat)
  | action (island : String) (e : ActionError)
deriving DecidableEq, Repr

namespace HydrationError

def kind : HydrationError → HydrationErrorKind
  | componentNotFound .. => .componentNotFound
  | mountThrew .. => .mountThrew
  | containerNotFound _ => .containerNotFound
  | unknownIsland _ => .unknownIsland
  | unknownHandler .. => .unknownHandler
  | action .. => .action

/-- What is shown of an error. -/
def message : HydrationError → String
  | componentNotFound island component =>
    s!"component '{component}' is not registered (island {island})"
  | mountThrew island component message =>
    s!"island {island} ({component}) failed to mount: {message}"
  | containerNotFound id => s!"container '{id}' not found"
  | unknownIsland island => s!"island '{island}' is not hydrated"
  | unknownHandler island kind index =>
    s!"island {island} has no {kind.name} handler at index {index}"
  | action island e => s!"action failed in island {island}: {e.message}"

/-- The island that the error belongs to. -/
def island? : HydrationError → Option String
  | componentNotFound island _ | mountThrew island _ _ | unknownIsland island
  | unknownHandler island _ _ | action island _ => some island
  | containerNotFound _ => none

end HydrationError

end Archipelago
