import Archipelago.Dict
import Archipelago.Text.Search

/-! # Durable storage of persisted variables -/

namespace Archipelago

/-! ## In memory -/

/-- Texts by scope and name, in the order of their first save. -/
structure Memory where
  entries : List ((String × String) × String) := []
deriving Repr, DecidableEq

namespace Memory

def load (m : Memory) (scope name : String) : Option String := m.entries.lookup (scope, name)

/-- A text takes the place of the one that was there, or comes last. -/
def put (key : String × String) (json : String) :
    List ((String × String) × String) → List ((String × String) × String)
  | [] => [(key, json)]
  | (k, j) :: rest => if k = key then (k, json) :: rest else (k, j) :: put key json rest

def save (m : Memory) (scope name json : String) : Memory := ⟨put (scope, name) json m.entries⟩

def remove (m : Memory) (scope name : String) : Memory :=
  ⟨m.entries.filter (·.1 ≠ (scope, name))⟩

def size (m : Memory) : Nat := m.entries.length

end Memory

/-! ## In a database -/

/-- The text of one variable. -/
structure StoredVariable where
  scope : String
  name : String
  json : String
deriving Repr, DecidableEq

namespace StoredVariable

/-- Scope and name joined by a unit separator. -/
def keyOf (scope name : String) : String := scope ++ "\x1f" ++ name

/-- What a row is found by. -/
def key (v : StoredVariable) : String := keyOf v.scope v.name

end StoredVariable

/-- Rows in the order of their keys, no key twice. -/
structure Database where
  rows : List StoredVariable := []
deriving Repr, DecidableEq

namespace Database

/-- A row with the same key is replaced. -/
def upsert (v : StoredVariable) : List StoredVariable → List StoredVariable
  | [] => [v]
  | r :: rest =>
    if r.key = v.key then v :: rest
    else if v.key < r.key then v :: r :: rest
    else r :: upsert v rest

def save (d : Database) (scope name json : String) : Database := ⟨upsert ⟨scope, name, json⟩ d.rows⟩

def load (d : Database) (scope name : String) : Option String :=
  (d.rows.find? (·.key = StoredVariable.keyOf scope name)).map (·.json)

def remove (d : Database) (scope name : String) : Database :=
  ⟨d.rows.filter (·.key ≠ StoredVariable.keyOf scope name)⟩

/-- The rows of all scopes that start with a text. -/
def startingWith (d : Database) (start : String) : List StoredVariable :=
  d.rows.filter fun r => Text.startsWith start r.scope

/-- The rows of one scope, which are among those of the scopes that start with it. -/
def scopeRows (d : Database) (scope : String) : List StoredVariable :=
  (d.startingWith scope).filter (·.scope = scope)

/-- The names and texts of one scope. -/
def loadScope (d : Database) (scope : String) : Dict String :=
  Dict.ofList ((d.scopeRows scope).map fun r => (r.name, r.json))

/-- All rows go that have the key of one of these. -/
def removeRows (d : Database) (gone : List StoredVariable) : Database :=
  ⟨d.rows.filter fun r => gone.all (·.key ≠ r.key)⟩

/-- Removes the rows of one scope and tells how many there were. -/
def clearScope (d : Database) (scope : String) : Database × Nat :=
  let gone := d.scopeRows scope
  (d.removeRows gone, gone.length)

def clear (d : Database) : Database := d.removeRows d.rows

end Database

/-! ## Either of the two -/

/-- Where persisted variables are kept; a memory may refuse to load or to save. -/
inductive Storage where
  | memory (entries : Memory) (failsLoad failsSave : Bool)
  | database (rows : Database)
deriving Repr

namespace Storage

/-- The text stored for a variable; `none` also when loading fails. -/
def load (s : Storage) (scope name : String) : Option String :=
  match s with
  | memory m failsLoad _ => if failsLoad then none else m.load scope name
  | database d => d.load scope name

/-- A failing save changes nothing. -/
def save (s : Storage) (scope name json : String) : Storage :=
  match s with
  | memory m failsLoad failsSave =>
    if failsSave then s else memory (m.save scope name json) failsLoad failsSave
  | database d => database (d.save scope name json)

def remove (s : Storage) (scope name : String) : Storage :=
  match s with
  | memory m failsLoad failsSave => memory (m.remove scope name) failsLoad failsSave
  | database d => database (d.remove scope name)

/-- Saves the entries, first to last. -/
def saveAll (s : Storage) (scope : String) (entries : List (String × String)) : Storage :=
  entries.foldl (fun s e => s.save scope e.1 e.2) s

end Storage

end Archipelago
