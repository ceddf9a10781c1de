import Archipelago.Action.Run
import Archipelago.Storage

/-! # Stores with the storage behind them -/

namespace Archipelago

/-- A store and what keeps its persisted variables, if anything does. -/
structure KeptStore where
  store : Store
  storage : Option Storage := none

namespace KeptStore

/-- The text kept for a variable. -/
def load (k : KeptStore) (name : String) : Option String :=
  k.storage.bind fun s => s.load k.store.scope name

/-- Goes on to another store, with the texts kept that it left. -/
def keep (k : KeptStore) (store : Store) (saves : List (String × String)) : KeptStore :=
  ⟨store, k.storage.map fun s => s.saveAll store.scope saves⟩

/-- A declaration starts with what has been kept. -/
def declare (k : KeptStore) (d : VariableDecl) : Except StoreError KeptStore := do
  .ok { k with store := ← k.store.declare k.load d }

/-- Declarations in order, until one is refused. -/
def declareAll (k : KeptStore) (ds : List VariableDecl) : Except StoreError KeptStore := do
  .ok { k with store := ← k.store.declareAll k.load ds }

/-- What a batch saves goes to the storage. -/
def apply (k : KeptStore) (ws : List Write) : Except StoreError (KeptStore × Commit) := do
  let (store, commit) ← k.store.apply ws
  .ok (k.keep store commit.saves, commit)

/-- What a run of actions leaves, whether it failed or not. -/
def after (k : KeptStore) (t : Trace) : KeptStore := k.keep t.store t.saves

end KeptStore

end Archipelago
