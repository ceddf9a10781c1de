import Archipelago.Dict
import Archipelago.Json
import Archipelago.Decimal.Reader
import Archipelago.Text.Letter

/-! # Values of template variables -/

namespace Archipelago

/-- Numbers are binary64, objects keep insertion order, and missing data differs from null. -/
inductive Value where
  | undefined
  | null
  | bool (b : Bool)
  | number (x : Float)
  | string (s : String)
  | array (items : List Value)
  | object (fields : List (String × Value))

instance : Inhabited Value := ⟨.undefined⟩

/-- Attribute text as a number: trimmed, finite, and not empty. -/
def parseNumber (s : String) : Option Float :=
  (Decimal.read? (Text.trim s)).filter Decimal.isFinite

/-- Whole numbers below `10 ^ 15` have no sign on zero. -/
def formatNumber (x : Float) : String :=
  match Decimal.integer? x with
  | some n => if n.natAbs < 1000000000000000 then toString n else Decimal.Layout.plain.format x
  | none => Decimal.Layout.plain.format x

/-- A number in JSON text: whole ones below `9 * 10 ^ 15` as integers, no infinity. -/
def Json.ofNumber (x : Float) : Json :=
  match Decimal.integer? x with
  | some n => if n.natAbs < 9000000000000000 then .int n else .float x
  | none => if Decimal.isFinite x then .float x else .null

namespace Value

def isUndefined : Value → Bool
  | undefined => true
  | _ => false

/-- A value that stands for nothing being there. -/
def isNullish : Value → Bool
  | undefined | null => true
  | _ => false

def asBool? : Value → Option Bool
  | bool b => some b
  | _ => none

def asNumber? : Value → Option Float
  | number x => some x
  | _ => none

def asString? : Value → Option String
  | string s => some s
  | _ => none

def asArray? : Value → Option (List Value)
  | array items => some items
  | _ => none

def asObject? : Value → Option (Dict Value)
  | object fields => some fields
  | _ => none

/-- Strings that hold a number count as one. -/
def toNumber? : Value → Option Float
  | number x => some x
  | string s => parseNumber s
  | _ => none

/-- The type of a value, as messages name it. -/
def typeName : Value → String
  | undefined => "undefined"
  | null => "null"
  | bool _ => "boolean"
  | number _ => "number"
  | string _ => "string"
  | array _ => "array"
  | object _ => "object"

/-- What is null, undefined, false, zero, no number or an empty text does not count as true. Lists
and objects always do. -/
def isTruthy : Value → Bool
  | undefined | null => false
  | bool b => b
  | number x => !(x == 0.0) && !(Decimal.magnitude x == .nan)
  | string s => s ≠ ""
  | array _ | object _ => true

/-- An index into a list: a whole number that is not negative. -/
def index? (x : Float) : Option Nat :=
  match Decimal.integer? x with
  | some n => if 0 ≤ n then some n.toNat else none
  | none => none

/-- One step of a property chain; a miss is undefined. -/
def segment : Value → Value → Value
  | object fields, string k => (Dict.get? fields k).getD undefined
  | object fields, number x => (Dict.get? fields (formatNumber x)).getD undefined
  | array items, seg =>
    match seg.toNumber?.bind index? with
    | some i => items[i]?.getD undefined
    | none => undefined
  | _, _ => undefined

mutual

/-- JSON has nothing for an undefined value but null. -/
def toJson : Value → Json
  | undefined | null => .null
  | bool b => .bool b
  | number x => Json.ofNumber x
  | string s => .string s
  | array items => .array (toJsonItems items)
  | object fields => .object (toJsonFields fields)

def toJsonItems : List Value → List Json
  | [] => []
  | v :: vs => toJson v :: toJsonItems vs

def toJsonFields : List (String × Value) → List (String × Json)
  | [] => []
  | (k, v) :: vs => (k, toJson v) :: toJsonFields vs

end

/-- The text that is kept of a value. -/
def jsonText (v : Value) : String := v.toJson.text

mutual

/-- The value of a document; of repeated names the last value and the first place count. -/
def ofJson? : Json → Option Value
  | .null => some null
  | .bool b => some (bool b)
  | .int n => some (number (Float.ofInt n))
  | .float x => some (number x)
  | .string s => some (string s)
  | .array items => (ofJsonItems? items).map array
  | .object members => (ofJsonMembers? members).map fun ms => object (Dict.ofList ms)
  | .unreadable => none

def ofJsonItems? : List Json → Option (List Value)
  | [] => some []
  | j :: js => (ofJson? j).bind fun v => (ofJsonItems? js).map (v :: ·)

def ofJsonMembers? : List (String × Json) → Option (List (String × Value))
  | [] => some []
  | (k, j) :: js => (ofJson? j).bind fun v => (ofJsonMembers? js).map ((k, v) :: ·)

end

mutual

/-- What a page shows: nothing for missing data, lists joined, objects as JSON. -/
def display : Value → String
  | undefined | null => ""
  | bool b => if b then "true" else "false"
  | number x => formatNumber x
  | string s => s
  | array items => ", ".intercalate (displayItems items)
  | object fields => (Json.object (toJsonFields fields)).text

def displayItems : List Value → List String
  | [] => []
  | v :: vs => display v :: displayItems vs

end

mutual

/-- Equality of contents: numbers as numbers, objects in any order. -/
def same : Value → Value → Bool
  | undefined, undefined => true
  | null, null => true
  | bool a, bool b => a == b
  | number x, number y => x == y
  | string s, string t => s == t
  | array xs, array ys => sameItems xs ys
  | object fs, object gs => fs.length == gs.length && sameFields fs gs
  | _, _ => false

def sameItems : List Value → List Value → Bool
  | [], [] => true
  | x :: xs, y :: ys => same x y && sameItems xs ys
  | _, _ => false

def sameFields : List (String × Value) → List (String × Value) → Bool
  | [], _ => true
  | (k, v) :: fs, gs =>
    (match Dict.get? gs k with
     | some w => same v w
     | none => false) && sameFields fs gs

end

end Value

end Archipelago
