import Archipelago.Ron.Number

/-! # Reading RON -/

namespace Archipelago.Ron

/-- What a document may turn on in front of its value. -/
structure Extensions where
  /-- No record may stand without its name. -/
  namesRequired : Bool := false
  /-- An optional value may stand without the word for it. -/
  someImplied : Bool := false
  /-- A record or a tuple in an optional value needs no parentheses of its own. -/
  variantsUnwrapped : Bool := false
deriving DecidableEq, Repr

namespace Extensions

/-- An extension by its name; there are no others. -/
def add? (e : Extensions) : String → Option Extensions
  | "explicit_struct_names" => some { e with namesRequired := true }
  | "implicit_some" => some { e with someImplied := true }
  | "unwrap_variant_newtypes" => some { e with variantsUnwrapped := true }
  | "unwrap_newtypes" => some e
  | _ => none

end Extensions

/-- Elements up to a closing character, separated by commas. -/
def elements {α : Type} (close : Char) (element : Reader α) :
    (fuel : Nat) → (more : Bool) → List α → Reader (List α)
  | 0, _, _, _ => none
  | fuel + 1, more, acc, cs => do
    let cs ← blanks cs
    match cs with
    | [] => none
    | c :: rest =>
      if c = close then some (acc.reverse, c :: rest)
      else if !more then none
      else
        let (x, rest) ← element cs
        let (more, rest) ← comma rest
        elements close element fuel more (x :: acc) rest

/-- The elements in front of a closing character. -/
def allBefore {α : Type} (close : Char) (element : Reader α) : Reader (List α) := fun cs =>
  elements close element (cs.length + 1) true [] cs

/-- The elements up to a closing character and past it. -/
def allWithin {α : Type} (close : Char) (element : Reader α) : Reader (List α) := fun cs =>
  (allBefore close element cs).map fun r => (r.1, r.2.drop 1)

/-- A name, a colon and a value. -/
def member (value : Reader Ron) : Reader (String × Ron) := fun cs => do
  let (key, rest) ← name cs
  let (_, rest) ← char ':' rest
  let (v, rest) ← value (← blanks rest)
  some ((key, v), rest)

/-- A key and its value with a colon between them. -/
def entry (value : Reader Ron) : Reader Unit := fun cs => do
  let (_, rest) ← value cs
  let (_, rest) ← char ':' rest
  let (_, rest) ← value (← blanks rest)
  some ((), rest)

/-- Does a word with a colon behind it come first? -/
def startsMember (cs : Chars) : Option Bool :=
  match word cs with
  | some (_, rest) => (blanks rest).map fun rest => rest.head? == some ':'
  | none => some false

/-- What stands in parentheses: named members, or values without a use. -/
def parenthesised (value : Reader Ron) (label : Option String) : Reader Ron := fun cs => do
  let cs ← blanks cs
  if ← startsMember cs then (allWithin ')' (member value) cs).map fun r => (record label r.1, r.2)
  else if cs.head? = some ')' then some (record label [], cs.drop 1)
  else (allWithin ')' value cs).map fun r => (other, r.2)

/-- Does another element follow the one that the text starts with? Looks for a comma outside of
all brackets and quotes; `depth` counts the brackets around. -/
def moreFollow : (fuel : Nat) → (depth : Nat) → Chars → Option Bool
  | 0, _, _ => none
  | fuel + 1, depth, cs => do
    match ← skipQuoted (← blanks cs) with
    | [] => none
    | c :: rest =>
      if c = '(' || c = '[' || c = '{' then moreFollow fuel (depth + 1) rest
      else if c = ')' || c = ']' || c = '}' then
        if depth = 0 then some false else moreFollow fuel (depth - 1) rest
      else if c = ',' && depth = 0 then (blanks rest).map fun rest => rest.head? != some ')'
      else moreFollow fuel depth rest

/-- What an optional value without parentheses of its own consists of. -/
inductive Unwrapped where
  | members | elements | value
deriving DecidableEq, Repr

def unwrapped (cs : Chars) : Option Unwrapped := do
  let rest ← match word cs with
    | some (_, rest) => blanks rest
    | none => some cs
  if (← startsMember cs) then some .members
  else if ← moreFollow (rest.length + 1) 0 rest then some .elements
  else some .value

/-- The value behind the word for an optional one. -/
def optional (e : Extensions) (value : (isUnwrapped : Bool) → Reader Ron) : Reader Ron :=
  fun cs => do
    match ← blanks cs with
    | '(' :: rest =>
      let (_, rest) ← value e.variantsUnwrapped (← blanks rest)
      let (_, rest) ← comma rest
      let (_, rest) ← char ')' rest
      some (other, rest)
    | rest => if e.someImplied then (value false rest).map fun r => (other, r.2) else none

/-- A name, and the parentheses behind it if there are any. -/
def named (within : Option (Reader Ron)) : Reader Ron := fun cs => do
  let (label, rest) ← name cs
  match ← blanks rest with
  | '(' :: rest => parenthesised (← within) (some label) rest
  | rest => some (other, rest)

/-- A value that starts with a sign of its own. -/
def unnamed (within : Option (Reader Ron)) : Reader Ron := fun cs => do
  match cs with
  | '(' :: rest => parenthesised (← within) none rest
  | '[' :: rest => (allWithin ']' (← within) rest).map fun r => (other, r.2)
  | '{' :: rest => (allWithin '}' (entry (← within)) rest).map fun r => (other, r.2)
  | '\'' :: _ => (quotedChar cs).map fun r => (other, r.2)
  | 'b' :: _ => (byteText cs).map fun r => (other, r.2)
  | _ => (text cs).map fun r => (string r.1, r.2)

/-- A value with its own parentheses, if it has any. -/
def wrapped (e : Extensions) (within : Option (Reader Ron))
    (within? : (isUnwrapped : Bool) → Reader Ron) : Reader Ron := fun cs =>
  if let some (_, rest) := keyword "true" cs then some (bool true, rest)
  else if let some (_, rest) := keyword "false" cs then some (bool false, rest)
  else if let some (_, rest) := keyword "Some" cs then optional e within? rest
  else if let some (_, rest) := keyword "None" cs then some (other, rest)
  else if let some (_, rest) := literal "()" cs then some (record none [], rest)
  else if let some (_, rest) := literal ".." cs then (rangeEnd rest).map (other, ·)
  else if (namedNumber cs).isSome || cs.head?.any startsNumber || ['b', '\''].isPrefixOf cs then
    numberOrRange cs
  else if (name cs).isSome then named within cs
  else unnamed within cs

/-- A value, given readers of what is in its brackets and of an optional value in it. -/
def valueOf (e : Extensions) (within : Option (Reader Ron))
    (within? : (isUnwrapped : Bool) → Reader Ron) (isUnwrapped : Bool) : Reader Ron := fun cs => do
  if !isUnwrapped then wrapped e within within? cs
  else if cs.head? = some ')' then some (other, cs)
  else
    match ← unwrapped cs with
    | .members => (allBefore ')' (member (← within)) cs).map fun r => (other, r.2)
    | .elements => (allBefore ')' (← within) cs).map fun r => (other, r.2)
    | .value => wrapped e within within? cs

/-- A value nested at most `room` deep: a bracket counts twice, once for what is in it. -/
def value (e : Extensions) : (room : Nat) → (isUnwrapped : Bool) → Reader Ron
  | 0 => valueOf e none fun _ _ => none
  | 1 => valueOf e (some fun _ => none) (value e 0)
  | room + 2 => valueOf e (some (value e room false)) (value e (room + 1))

/-- The extensions between the parentheses of a directive. -/
def enabled (e : Extensions) : Reader Extensions := fun cs => do
  let (_, rest) ← char '(' cs
  let (names, rest) ← allWithin ')' name rest
  if names.isEmpty then none
  some (← names.foldlM Extensions.add? e, rest)

/-- A directive from its hash sign on. One that tells the type or the schema has no effect. -/
def directive (e : Extensions) : Reader Extensions := fun cs => do
  let (_, rest) ← literal "#" cs
  let (_, rest) ← char '!' rest
  let (_, rest) ← char '[' rest
  let rest ← blanks rest
  let (e, rest) ←
    if let some (_, rest) := literal "enable" rest then enabled e rest
    else do
      let (_, rest) ← (literal "type" rest).or (literal "schema" rest)
      let (_, rest) ← char '=' rest
      let (_, rest) ← text (← blanks rest)
      some (e, rest)
  let (_, rest) ← char ']' rest
  some (e, rest)

/-- The lines in front of a document that switch extensions on. -/
def directives : (fuel : Nat) → Extensions → Reader Extensions
  | 0, _, _ => none
  | fuel + 1, e, cs => do
    let cs ← blanks cs
    if cs.head? = some '#' then
      let (e, rest) ← directive e cs
      directives fuel e rest
    else some (e, cs)

/-- The depth to which the values of a document may nest. -/
def maxNesting : Nat := 128

/-- A value with nothing but directives, blanks and comments around it. -/
structure Document where
  extensions : Extensions
  root : Ron

/-- A document is all that is there, but for blanks and comments. -/
def parse (s : String) : Option Document := do
  let cs := s.toList
  let (e, rest) ← directives (cs.length + 1) {} cs
  let (root, rest) ← value e maxNesting false rest
  if (← blanks rest).isEmpty then some ⟨e, root⟩ else none

end Archipelago.Ron
