import Archipelago.Dict

/-! # RON documents -/

namespace Archipelago

/-- A document of the object notation that settings are written in. -/
inductive Ron where
  | bool (b : Bool)
  | nat (n : Nat)
  | string (s : String)
  /-- Members in parentheses, with the name in front of them if there is one. -/
  | record (name : Option String) (members : List (String × Ron))
  /-- A well-formed value of a kind that no setting has. -/
  | other

namespace Ron

/-- The members of a record of the type `type`. A known name may not be repeated; unknown names
are passed over. -/
def record? (namesRequired : Bool) (type : String) (known : List String) : Ron → Option (Dict Ron)
  | record label members =>
    let found := members.filter fun m => known.contains m.1
    if (label = some type || (label = none && !namesRequired)) && (Dict.keys found).Nodup then
      some found
    else none
  | _ => none

def bool? : Ron → Option Bool
  | bool b => some b
  | _ => none

def nat64? : Ron → Option Nat
  | nat n => some n
  | _ => none

def string? : Ron → Option String
  | string s => some s
  | _ => none

/-- A member, or the default if there is none. -/
def memberOr {α : Type} (d : Dict Ron) (key : String) (default : α) (read : Ron → Option α) :
    Option α :=
  match Dict.get? d key with
  | some r => read r
  | none => some default

end Ron

end Archipelago
