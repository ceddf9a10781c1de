import Archipelago.Action
import Archipelago.Store

/-! # The writes of one step -/

namespace Archipelago.Action

/-- A step reads the store as it is and then writes once. -/
abbrev Result := Except ActionError (List Write)

/-- The value that an action finds in a variable. -/
def current (s : Store) (var : String) : Except ActionError Value :=
  (s.get var).mapError .ofStore

def evaluated {α : Type} (r : Except EvalError α) : Except ActionError α := r.mapError .eval

/-- The items of a list. Anything else is not what the action works on. -/
def items (var : String) : Value → Except ActionError (List Value)
  | .array xs => .ok xs
  | other => .error (.mismatch var "array" other)

/-- The fields of an object. A variable that is undefined or null counts as an empty one. -/
def fields (var : String) : Value → Except ActionError (Dict Value)
  | .object fs => .ok fs
  | .undefined | .null => .ok []
  | other => .error (.mismatch var "object" other)

/-- Evaluates with an item and its place bound on top of the captured bindings. -/
def evalItem (s : Store) (captured : Dict Value) (e : Expr) (item : Value) (index : Nat) :
    Except EvalError Value :=
  e.eval s.toScope [[("item", item), ("index", .number (Float.ofNat index))], captured]

/-- Each item with the value of an expression on it. -/
def evalItems (s : Store) (captured : Dict Value) (e : Expr) :
    Nat → List Value → Except EvalError (List (Value × Value))
  | _, [] => .ok []
  | i, x :: xs => do
    let v ← evalItem s captured e x i
    let rest ← evalItems s captured e (i + 1) xs
    .ok ((v, x) :: rest)

/-- The first item whose condition is truthy; those behind it are not looked at. -/
def findItem (s : Store) (captured : Dict Value) (e : Expr) :
    Nat → List Value → Except EvalError Value
  | _, [] => .ok .undefined
  | i, x :: xs => do
    let v ← evalItem s captured e x i
    if v.isTruthy then .ok x else findItem s captured e (i + 1) xs

/-- Does `a` go before `b`? -/
def goesBefore (order : SortOrder) (a b : Value) : Except EvalError Bool := do
  let o ← a.order b
  .ok (o == match order with
    | .asc => Ordering.lt
    | .desc => Ordering.gt)

/-- Moves an item in front of those behind which it does not belong; the list runs backwards. -/
def insertSorted (order : SortOrder) (x : Value × Value) :
    List (Value × Value) → Except EvalError (List (Value × Value))
  | [] => .ok [x]
  | y :: ys => do
    if ← goesBefore order x.1 y.1 then
      let rest ← insertSorted order x ys
      .ok (y :: rest)
    else .ok (x :: y :: ys)

/-- Inserts the items one by one into a list that runs backwards. -/
def insertAllSorted (order : SortOrder) :
    List (Value × Value) → List (Value × Value) → Except EvalError (List (Value × Value))
  | sorted, [] => .ok sorted
  | sorted, x :: xs => do insertAllSorted order (← insertSorted order x sorted) xs

/-- A stable sort of the items by their keys, which stand first. -/
def sortByKey (order : SortOrder) (keyed : List (Value × Value)) :
    Except EvalError (List Value) := do
  let sorted ← insertAllSorted order [] keyed
  .ok (sorted.reverse.map (·.2))

/-- The sum from left to right. -/
def total (var : String) : Float → List Value → Except ActionError Float
  | acc, [] => .ok acc
  | acc, v :: vs =>
    match v with
    | .number x => total var (acc + x) vs
    | other => .error (.mismatch var "number" other)

/-- Evaluates and adds from left to right. -/
def totalOf (s : Store) (captured : Dict Value) (var : String) (e : Expr) :
    Nat → Float → List Value → Except ActionError Float
  | _, acc, [] => .ok acc
  | i, acc, x :: xs => do
    let v ← evaluated (evalItem s captured e x i)
    match v with
    | .number n => totalOf s captured var e (i + 1) (acc + n) xs
    | other => .error (.mismatch var "number" other)

/-- Replaces the value at a path; what is no object on the way becomes one. -/
def setPath (fs : Dict Value) : List String → Value → Dict Value
  | [], _ => fs
  | [name], v => Dict.insert fs name v
  | name :: rest, v =>
    let child := match Dict.get? fs name with
      | some (.object inner) => inner
      | _ => []
    Dict.insert fs name (.object (setPath child rest v))

/-- The names along a path. Points that follow each other count as one. -/
def pathSegments (path : String) : List String := (Text.split '.' path).filter (· ≠ "")

/-- The place of an item, counted from zero. -/
def position? (p : Value → Bool) : List Value → Option Nat
  | [] => none
  | x :: xs => if p x then some 0 else (position? p xs).map (· + 1)

/-- The value that follows `now` among the values. -/
def nextOf (values : List Value) (now : Value) : Option Value :=
  match position? (·.looseEq now) values with
  | some i => values[(i + 1) % values.length]?
  | none => values.head?

/-- A number changed by the amount of an operand. -/
def stepped (s : Store) (locals : Locals) (kind var : String) (amount : Operand)
    (f : Float → Float → Float) : Result := do
  match ← current s var with
  | .number n =>
    let v ← evaluated (amount.resolve s.limits s.toScope locals)
    match v.toNumber? with
    | some x => .ok [.set var (.number (f n x))]
    | none => .error (.invalidArgument kind s!"step '{v.display}' is not a number")
  | other => .error (.mismatch var "number" other)

def parse (s : Store) (src : String) : Except ActionError Expr :=
  evaluated (Expr.parse s.limits src)

/-- The list in `var`, for a step that writes `target`. -/
def source (s : Store) (var target : String) : Except ActionError (List Value) := do
  let _ ← current s target
  items var (← current s var)

/-- The sources merged from left to right. -/
def mergeAll (s : Store) : Dict Value → List String → Except ActionError (Dict Value)
  | merged, [] => .ok merged
  | merged, var :: vars => do
    let fs ← fields var (← current s var)
    mergeAll s (Dict.merge merged fs) vars

/-- The writes of a step that is no sequence and no delay, with bindings captured at the event. -/
def writes (s : Store) (captured : Dict Value) : Action → Result
  | set var value => do
    let _ ← current s var
    let v ← evaluated (value.resolve s.limits s.toScope [captured])
    .ok [.set var v]
  | increment var amount => stepped s [captured] "Increment" var amount (· + ·)
  | decrement var amount => stepped s [captured] "Decrement" var amount (· - ·)
  | toggle var => do
    match ← current s var with
    | .bool b => .ok [.set var (.bool !b)]
    | other => .error (.mismatch var "boolean" other)
  | reset var => do
    let _ ← current s var
    .ok [.reset var]
  | cycle var values => do
    let now ← current s var
    match nextOf values now with
    | some v => .ok [.set var v]
    | none => .error (.invalidArgument "Cycle" "no values to cycle through")
  | push var value => do
    let xs ← items var (← current s var)
    let v ← evaluated (value.resolve s.limits s.toScope [captured])
    .ok [.set var (.array (xs ++ [v]))]
  | pop var => do
    let xs ← items var (← current s var)
    .ok (if xs.isEmpty then [] else [.set var (.array xs.dropLast)])
  | removeAt var index => do
    let xs ← items var (← current s var)
    let v ← evaluated (index.resolve s.limits s.toScope [captured])
    match v.toNumber?.bind Value.index? with
    | some i =>
      if i < xs.length then .ok [.set var (.array (xs.eraseIdx i))]
      else outOfRange v xs
    | none => outOfRange v xs
  | objectSet var path value => do
    let fs ← fields var (← current s var)
    let segments := pathSegments path
    if segments.isEmpty then .error (.invalidArgument "ObjectSet" "empty path")
    else
      let v ← evaluated (value.resolve s.limits s.toScope [captured])
      .ok [.set var (.object (setPath fs segments v))]
  | merge sources target => do
    let _ ← current s target
    let merged ← mergeAll s [] sources
    .ok [.set target (.object merged)]
  | clone var target => do
    let _ ← current s target
    let v ← current s var
    .ok [.set target v]
  | filter var target condition => do
    let xs ← source s var target
    let e ← parse s condition
    let tested ← evaluated (evalItems s captured e 0 xs)
    .ok [.set target (.array ((tested.filter (·.1.isTruthy)).map (·.2)))]
  | sort var target key order => do
    let xs ← source s var target
    let keyed ← match key with
      | none => .ok (xs.map fun x => (x, x))
      | some src => do
        let e ← parse s src
        evaluated (evalItems s captured e 0 xs)
    let sorted ← evaluated (sortByKey order keyed)
    .ok [.set target (.array sorted)]
  | transform var target expression => do
    let xs ← source s var target
    let e ← parse s expression
    let mapped ← evaluated (evalItems s captured e 0 xs)
    .ok [.set target (.array (mapped.map (·.1)))]
  | find var target condition => do
    let xs ← source s var target
    let e ← parse s condition
    let found ← evaluated (findItem s captured e 0 xs)
    .ok [.set target found]
  | sum var target expression => do
    let xs ← source s var target
    let n ← match expression with
      | none => total var 0.0 xs
      | some src => do
        let e ← parse s src
        totalOf s captured var e 0 0.0 xs
    .ok [.set target (.number n)]
  | sequence _ | delay _ => .ok []
where
  outOfRange (v : Value) (xs : List Value) : Result :=
    .error (.invalidArgument "RemoveAt"
      s!"index {v.display} out of range for length {xs.length}")

end Archipelago.Action
