import Archipelago.Config
import Archipelago.Dependency
import Archipelago.Expr.Eval
import Archipelago.Expr.Parser
import Archipelago.Variable

/-! # The variables of one template instance -/

namespace Archipelago

/-- A pending write of an evaluated value. -/
inductive Write where
  | set (name : String) (value : Value)
  | reset (name : String)

namespace Write

/-- The variable that a write is about. -/
def name : Write → String
  | set name _ => name
  | reset name => name

end Write

/-- A subscription told about the new value of its variable. -/
structure Notice where
  subscription : Nat
  name : String
  value : Value

/-- What a batch did: the names that changed, the texts to store and the subscribers told. -/
structure Commit where
  changed : List String
  saves : List (String × String)
  notices : List Notice

/-- Variables by name, with what is needed to keep the computed ones up to date. -/
structure Store where
  vars : Dict Variable := []
  /-- Computed variables, each behind those it reads. -/
  computedOrder : List String := []
  /-- Subscriptions with their variables, oldest first. -/
  subscriptions : List (Nat × String) := []
  nextSubscription : Nat := 0
  params : Dict String := []
  resident : Value := .undefined
  /-- Under which persisted variables are stored. -/
  scope : String := "default"
  limits : EvalLimits := {}

namespace Store

/-- What expressions read: the values as they are. -/
def toScope (s : Store) : Scope where
  lookup name := (Dict.get? s.vars name).map (·.value)
  resident := s.resident

def contains (s : Store) (name : String) : Bool := Dict.contains s.vars name

def names (s : Store) : List String := Dict.keys s.vars

/-- The value of a variable that must be there. -/
def get (s : Store) (name : String) : Except StoreError Value :=
  match Dict.get? s.vars name with
  | some v => .ok v.value
  | none => .error (.unknownVariable name)

/-- The current value of every variable. -/
def snapshot (s : Store) : Dict Value := Dict.mapValues (·.value) s.vars

/-- A new value for a variable; nothing depends on it yet. -/
def setValue (s : Store) (name : String) (value : Value) : Store :=
  match Dict.get? s.vars name with
  | some v => { s with vars := Dict.insert s.vars name { v with value } }
  | none => s

/-- What each computed variable reads. -/
def graph (vars : Dict Variable) : Dependency.Graph :=
  (vars.filter fun e => e.2.expr.isSome).map fun e => (e.1, e.2.dependencies)

/-- A computed value; an expression that fails is undefined. -/
def computedValue (s : Store) (e : Expr) : Value :=
  match e.eval s.toScope [] with
  | .ok v => v
  | .error _ => .undefined

/-- Evaluates a computed variable anew; `none` if its value stays equal. -/
def recompute? (s : Store) (name : String) : Option Store :=
  match Dict.get? s.vars name with
  | some ⟨_, old, some e⟩ =>
    let value := s.computedValue e
    if old.same value then none else some (s.setValue name value)
  | _ => none

/-- The stored value of a variable, if it can be read as one of its type. -/
def persisted? (load : String → Option String) (d : VariableDecl) : Option Value :=
  match ((load d.name).bind Value.parse?).map (d.type.coerce d.name) with
  | some (.ok v) => some v
  | _ => none

/-- The value a declared variable starts with; a computed one is evaluated later. -/
def startValue (s : Store) (load : String → Option String) (d : VariableDecl) :
    Except StoreError Value :=
  match d.type with
  | .computed => .ok .undefined
  | .urlParam =>
    .ok <| match Dict.get? s.params d.paramName with
      | some raw => .string raw
      | none => d.initial
  | t => do
    let initial ← t.coerce d.name d.initial
    .ok (if d.persist then (persisted? load d).getD initial else initial)

/-- The expression of a computed variable, which must be readable. -/
def parseComputed (s : Store) (d : VariableDecl) : Except StoreError (Option Expr) :=
  match d.type, d.expression with
  | .computed, some src =>
    match Expr.parse s.limits src with
    | .ok e => .ok (some e)
    | .error e => .error (.eval e)
  | .computed, none =>
    .error (.eval (.malformed 0 s!"computed variable '{d.name}' has no expression"))
  | _, _ => .ok none

/-- Declares a variable; `load` reads what is stored under its name. A computed variable is
evaluated at once, and one that closes a cycle is refused. -/
def declare (load : String → Option String) (s : Store) (d : VariableDecl) :
    Except StoreError Store := do
  if s.contains d.name then .error (.duplicateVariable d.name)
  else
    let expr ← s.parseComputed d
    let value ← s.startValue load d
    let vars := Dict.insert s.vars d.name ⟨d, value, expr⟩
    if expr.isNone then .ok { s with vars }
    else match (graph vars).order with
      | .error name => .error (.cyclicComputed name)
      | .ok computedOrder =>
        let s := { s with vars, computedOrder }
        .ok ((s.recompute? d.name).getD s)

/-- Declares the variables, first to last. -/
def declareAll (load : String → Option String) (s : Store) :
    List VariableDecl → Except StoreError Store
  | [] => .ok s
  | d :: ds => do declareAll load (← s.declare load d) ds

/-- The value that a write gives its variable. -/
def stage (s : Store) (w : Write) : Except StoreError (String × Value) :=
  match Dict.get? s.vars w.name with
  | none => .error (.unknownVariable w.name)
  | some v =>
    if v.decl.type.isReadOnly then .error (.readOnlyVariable w.name)
    else do
      let value ← match w with
        | .set name value => v.decl.type.coerce name value
        | .reset name => v.decl.type.coerce name v.decl.initial
      .ok (w.name, value)

/-- All writes are checked, in order, before any of them is carried out. -/
def stageAll (s : Store) : List Write → Except StoreError (List (String × Value))
  | [] => .ok []
  | w :: ws => do
    let staged ← s.stage w
    let more ← s.stageAll ws
    .ok (staged :: more)

/-- A store under change, with the names changed so far. -/
structure Batch where
  store : Store
  changed : List String

namespace Batch

/-- An equal value is not written. -/
def write (b : Batch) (name : String) (value : Value) : Batch :=
  match Dict.get? b.store.vars name with
  | some v =>
    if v.value.same value then b else ⟨b.store.setValue name value, addNew b.changed name⟩
  | none => b

/-- Evaluates a computed variable anew if something it reads has changed. -/
def refresh (b : Batch) (name : String) : Batch :=
  match Dict.get? b.store.vars name with
  | some v =>
    if v.dependencies.any (· ∈ b.changed) then
      match b.store.recompute? name with
      | some s => ⟨s, addNew b.changed name⟩
      | none => b
    else b
  | none => b

end Batch

/-- The persisted variables among the names, each once. -/
def persistedNames (s : Store) (names : List String) : List String :=
  addAllNew [] <| names.filter fun name =>
    match Dict.get? s.vars name with
    | some v => v.decl.persist
    | none => false

/-- The texts to be kept of the variables that persist, each of them once. -/
def saves (s : Store) (names : List String) : List (String × String) :=
  (s.persistedNames names).filterMap fun name =>
    (Dict.get? s.vars name).map fun v => (name, v.value.jsonText)

/-- Each changed name in turn, each of its subscriptions in turn. -/
def notices (s : Store) (changed : List String) : List Notice :=
  changed.flatMap fun name =>
    match Dict.get? s.vars name with
    | none => []
    | some v => (s.subscriptions.filter (·.2 = name)).map fun sub => ⟨sub.1, name, v.value⟩

/-- Commits a batch: all writes are checked before any is made, then computed variables follow. -/
def apply (s : Store) (ws : List Write) : Except StoreError (Store × Commit) := do
  let staged ← s.stageAll ws
  let written := staged.foldl (fun b w => b.write w.1 w.2) (⟨s, []⟩ : Batch)
  let settled := s.computedOrder.foldl Batch.refresh written
  .ok (settled.store,
    { changed := settled.changed
      saves := settled.store.saves (staged.map (·.1))
      notices := settled.store.notices settled.changed })

/-- A batch of one write. -/
def set (s : Store) (name : String) (value : Value) : Except StoreError (Store × Commit) :=
  s.apply [.set name value]

/-- A batch that takes one variable back to its initial value. -/
def reset (s : Store) (name : String) : Except StoreError (Store × Commit) :=
  s.apply [.reset name]

/-- Registers for the changes of one variable. -/
def subscribe (s : Store) (name : String) : Except StoreError (Store × Nat) :=
  if s.contains name then
    .ok ({ s with
      subscriptions := s.subscriptions ++ [(s.nextSubscription, name)]
      nextSubscription := s.nextSubscription + 1 }, s.nextSubscription)
  else .error (.unknownVariable name)

/-- How a subscription is named. -/
def subscriptionText (id : Nat) : String := s!"sub:{id}"

/-- Also tells whether the subscription was there. -/
def unsubscribe (s : Store) (id : Nat) : Store × Bool :=
  ({ s with subscriptions := s.subscriptions.filter (·.1 ≠ id) },
    s.subscriptions.any (·.1 = id))

end Store

end Archipelago
