import Archipelago.Session

/-! # Taking islands off a page -/

namespace Archipelago

/-- What has come of taking islands off. -/
structure CleanupReport where
  /-- The islands that were taken off, those that could not be released among them. -/
  unmounted : List String := []
  /-- The islands that could not be released, and why. -/
  errors : List (String × String) := []
deriving DecidableEq, Repr

namespace Session

/-- Takes one island off and cancels all it has scheduled. -/
def unmountOne (s : Session) (r : CleanupReport) (id : String) : Session × CleanupReport :=
  match Dict.get? s.mounted id with
  | none => (s, r)
  | some m =>
    let document := s.document.removeAttr m.placeholder Hydration.stateAttr
    ({ s with
        document := document.removeAttr m.placeholder Hydration.timeAttr
        mounted := Dict.erase s.mounted id
        scheduler := cancelAll (s.scheduler.cancelToken m.token) (m.timers.map (·.2)) },
      { unmounted := r.unmounted ++ [id]
        errors := r.errors ++ (m.component.unmountError.map fun e => (id, e)).toList })

/-- Drops the variables of templates that drive no island any more. -/
def dropStores (s : Session) : Session :=
  { s with stores := s.stores.filter fun e => s.mounted.any (·.2.template = some e.1) }

/-- Islands are taken off one after the other, and then the stores go that drive none any more. -/
def unmount (s : Session) (ids : List String) : Session × CleanupReport :=
  let (s, r) := ids.foldl (fun sr id => unmountOne sr.1 sr.2 id) (s, {})
  (s.dropStores, r)

/-- Takes all islands off. -/
def cleanup (s : Session) : Session × CleanupReport := s.unmount (Dict.keys s.mounted)

/-- Takes the islands of one container off. -/
def cleanupIn (s : Session) (containerId : String) : Session × CleanupReport :=
  match s.document.byId? containerId with
  | none => (s, {})
  | some container =>
    let inside := s.mounted.filter fun e =>
      e.2.container = container || s.document.contains container e.2.placeholder
    s.unmount (Dict.keys inside)

end Session

end Archipelago
