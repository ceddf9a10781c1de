import Archipelago.Store.Kept

/-!
# Stores that are changed in place

A store at work, with the storage behind it and the subscribers in front of it. An operation is made
of steps, and a step that fails undoes nothing of what has been done before it.
-/

namespace Archipelago

/-- A store with its storage, and with all that its subscribers have been told so far. -/
structure LiveStore where
  kept : KeptStore
  told : List Notice := []

namespace LiveStore

/-- The same with another store. -/
def withStore (l : LiveStore) (s : Store) : LiveStore :=
  { l with kept := { l.kept with store := s } }

/-- A step that can fail. What it has changed by then stays changed. -/
abbrev Step (ε α : Type) := ExceptT ε (StateM LiveStore) α

/-- What comes of a step: a step that fails leaves behind what it has changed by then. -/
def Step.run {ε α : Type} (x : Step ε α) (l : LiveStore) : Except ε α × LiveStore :=
  Id.run (StateT.run (ExceptT.run x) l)

section Steps

variable {ε : Type}

/-- The store as it is now. -/
def store : Step ε Store := do
  return (← get).kept.store

/-- A store takes the place of the one that is there. -/
def setStore (s : Store) : Step ε Unit := modify (·.withStore s)

/-- Stops if there is no result. -/
def result {α : Type} : Except ε α → Step ε α
  | .ok a => pure a
  | .error e => throw e

/-! ## Declaring -/

/-- Puts the computed variables in order and evaluates the new one. If there is no order, the new
variable is taken out again. -/
def place (name : String) : Step StoreError Unit := do
  let s ← store
  match (Store.graph s.vars).order with
  | .ok computedOrder =>
    let s := { s with computedOrder }
    setStore ((s.recompute? name).getD s)
  | .error cyclic =>
    setStore { s with vars := Dict.erase s.vars name }
    throw (.cyclicComputed cyclic)

/-- A computed variable is in the store before it is known whether it closes a cycle. -/
def declare (d : VariableDecl) : Step StoreError Unit := do
  let s ← store
  if s.contains d.name then throw (.duplicateVariable d.name)
  else
    let expr ← result (s.parseComputed d)
    let value ← result (s.startValue (← get).kept.load d)
    setStore { s with vars := Dict.insert s.vars d.name ⟨d, value, expr⟩ }
    if expr.isSome then place d.name

/-! ## Writing -/

/-- Checks the writes, first to last, and writes nothing yet. -/
def stageAll : List Write → Step StoreError (List (String × Value))
  | [] => pure []
  | w :: ws => do
    let staged ← result ((← store).stage w)
    let more ← stageAll ws
    return staged :: more

/-- Writes the values one by one, and goes on with the names that have changed. -/
def writeAll : List (String × Value) → List String → Step ε (List String)
  | [], changed => pure changed
  | w :: ws, changed => do
    let b := (Store.Batch.mk (← store) changed).write w.1 w.2
    setStore b.store
    writeAll ws b.changed

/-- Evaluates computed variables anew, one by one. -/
def refreshAll : List String → List String → Step ε (List String)
  | [], changed => pure changed
  | name :: names, changed => do
    let b := (Store.Batch.mk (← store) changed).refresh name
    setStore b.store
    refreshAll names b.changed

/-- Saves one text after the other. -/
def saveAll : List (String × String) → Step ε Unit
  | [] => pure ()
  | (name, json) :: saves => do
    modify fun l => { l with
      kept := { l.kept with
        storage := l.kept.storage.map fun s => s.save l.kept.store.scope name json } }
    saveAll saves

/-- Calls one subscriber after the other. -/
def tellAll : List Notice → Step ε Unit
  | [] => pure ()
  | n :: notices => do
    modify fun l => { l with told := l.told ++ [n] }
    tellAll notices

/-- Commits a batch and tells which names have changed. -/
def apply (ws : List Write) : Step StoreError (List String) := do
  let staged ← stageAll ws
  let changed ← writeAll staged []
  let changed ← refreshAll (← store).computedOrder changed
  saveAll ((← store).saves (staged.map (·.1)))
  tellAll ((← store).notices changed)
  return changed

def set (name : String) (value : Value) : Step StoreError (List String) := apply [.set name value]

def reset (name : String) : Step StoreError (List String) := apply [.reset name]

/-- Executes a single action that is neither a sequence nor a delay. -/
def execute (locals : Dict Value) (a : Action) : Step ActionError (List String) := do
  let ws ← result (a.writes (← store) locals)
  ExceptT.adapt .ofStore (apply ws)

end Steps

/-! ## Operations -/

/-- What can be asked of a store, a single action included. -/
inductive Operation where
  | declare (d : VariableDecl)
  | apply (ws : List Write)
  | set (name : String) (value : Value)
  | reset (name : String)
  | execute (locals : Dict Value) (a : Action) (isLeaf : a.isLeaf = true)

namespace Operation

/-- What an operation does, step by step, and the names that it changes. -/
def steps : Operation → Step ActionError (List String)
  | declare d => ExceptT.adapt .ofStore do LiveStore.declare d; return []
  | apply ws => ExceptT.adapt .ofStore (LiveStore.apply ws)
  | set name value => ExceptT.adapt .ofStore (LiveStore.set name value)
  | reset name => ExceptT.adapt .ofStore (LiveStore.reset name)
  | execute locals a _ => LiveStore.execute locals a

/-- What comes of an operation. -/
def perform (op : Operation) (l : LiveStore) : Except ActionError (List String) × LiveStore :=
  op.steps.run l

end Operation

/-- Goes on whatever becomes of the operations. -/
def run (l : LiveStore) (ops : List Operation) : LiveStore :=
  ops.foldl (fun l op => (op.perform l).2) l

end LiveStore

end Archipelago
