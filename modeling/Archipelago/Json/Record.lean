import Archipelago.Dict
import Archipelago.Json

/-! # Records and variants in JSON -/

namespace Archipelago.Json

/-- The members of a record: by name from an object, or by place from an array. -/
structure Record where
  byPlace : Bool
  members : Dict Json

/-- A known name may not be repeated, unknown names are passed over; an array may not be longer
than the record. -/
def record? (names : List String) : Json → Option Record
  | .object members =>
    let known := members.filter fun m => names.contains m.1
    if (Dict.keys known).Nodup then some ⟨false, known⟩ else none
  | .array items =>
    if items.length ≤ names.length then some ⟨true, names.zip items⟩ else none
  | _ => none

namespace Record

/-- A field that must be there. -/
def required {α : Type} (r : Record) (name : String) (read : Json → Option α) : Option α :=
  (Dict.get? r.members name).bind read

/-- A field that may be left out, and then has a default. -/
def withDefault {α : Type} (r : Record) (name : String) (default : α) (read : Json → Option α) :
    Option α :=
  match Dict.get? r.members name with
  | some j => read j
  | none => some default

/-- A value that may be null, or left out of an object. -/
def optional {α : Type} (r : Record) (name : String) (read : Json → Option α) :
    Option (Option α) :=
  match Dict.get? r.members name with
  | some .null => some none
  | some j => (read j).map some
  | none => if r.byPlace then none else some none

/-- A value that may be null or left out. -/
def optionalDefault {α : Type} (r : Record) (name : String) (read : Json → Option α) :
    Option (Option α) :=
  match Dict.get? r.members name with
  | some .null | none => some none
  | some j => (read j).map some

end Record

/-- The name of a variant and what it carries. -/
def variant? : Json → Option (String × Json)
  | .object [(name, content)] => some (name, content)
  | _ => none

/-- A variant that carries nothing, written as its name or with null. -/
def unit? {α : Type} (names : List (String × α)) : Json → Option α
  | .string name | .object [(name, .null)] => Dict.get? names name
  | _ => none

/-- Something under the name of its kind. -/
def variant (name : String) (content : Json) : Json := .object [(name, content)]

def string? : Json → Option String
  | .string s => some s
  | _ => none

def bool? : Json → Option Bool
  | .bool b => some b
  | _ => none

/-- A whole number below `bound`. -/
def natBelow? (bound : Nat) : Json → Option Nat
  | .int n => if 0 ≤ n && n < bound then some n.toNat else none
  | _ => none

def nat64? : Json → Option Nat := natBelow? 0x10000000000000000

def nat32? : Json → Option Nat := natBelow? 0x100000000

/-- All the items of a list are read, or none. -/
def list? {α : Type} (read : Json → Option α) : Json → Option (List α)
  | .array items => items.mapM read
  | _ => none

/-- An object as a map; a repeated name keeps its first place and its last value. -/
def dict? {α : Type} (read : Json → Option α) : Json → Option (Dict α)
  | .object members => (members.mapM fun m => (read m.2).map (m.1, ·)).map Dict.ofList
  | _ => none

end Archipelago.Json
