import Archipelago.Text.Identifier
import Archipelago.Text.Letter

/-! # Blanks and words of RON -/

namespace Archipelago.Ron

/-- What is still to be read. -/
abbrev Chars := List Char

/-- A reader takes something from the front of a text. -/
abbrev Reader (α : Type) := Chars → Option (α × Chars)

/-- The characters between words. -/
def isSpace (c : Char) : Bool :=
  Text.inRanges [(0x9, 0xd), (0x20, 0x20), (0x85, 0x85), (0x200e, 0x200f), (0x2028, 0x2029)] c

/-- The text behind a block comment; such comments nest. -/
def afterBlock : (depth : Nat) → Chars → Option Chars
  | depth, '/' :: '*' :: cs => afterBlock (depth + 1) cs
  | depth, '*' :: '/' :: cs => if depth = 0 then some cs else afterBlock (depth - 1) cs
  | depth, _ :: cs => afterBlock depth cs
  | _, [] => none

/-- Skips blanks and comments; `none` if a comment does not end. -/
def skip : (fuel : Nat) → Chars → Option Chars
  | 0, cs => some cs
  | fuel + 1, cs =>
    match cs.dropWhile isSpace with
    | '/' :: '/' :: rest => skip fuel (rest.dropWhile (· ≠ '\n'))
    | '/' :: '*' :: rest => (afterBlock 0 rest).bind (skip fuel)
    | '/' :: _ => none
    | rest => some rest

/-- What is behind blanks and comments. A comment that has no end cannot be read. -/
def blanks (cs : Chars) : Option Chars :=
  match cs.dropWhile isSpace with
  | '/' :: rest => skip (rest.length + 2) ('/' :: rest)
  | rest => some rest

/-- A character behind blanks. -/
def char (c : Char) : Reader Unit := fun cs => do
  match ← blanks cs with
  | d :: rest => if c = d then some ((), rest) else none
  | [] => none

/-- A comma behind blanks, if there is one, and the blanks behind it. -/
def comma (cs : Chars) : Option (Bool × Chars) := do
  match ← blanks cs with
  | ',' :: rest => some (true, ← blanks rest)
  | rest => some (false, rest)

/-- The characters that names start with. -/
def isNameStart (c : Char) : Bool :=
  c = '_' || if c.toNat < 0x80 then c.isAlpha else Text.inRanges Text.nameStartRanges c

/-- The characters that names go on with. -/
def isNameChar (c : Char) : Bool :=
  if c.toNat < 0x80 then c.isAlphanum || c = '_' else Text.inRanges Text.nameContinueRanges c

/-- The characters of names in their raw form. -/
def isRawChar (c : Char) : Bool := isNameChar c || c = '.' || c = '+' || c = '-'

/-- What a text starts with, and what is left. -/
def literal (s : String) : Reader Unit := fun cs =>
  if s.toList.isPrefixOf cs then some ((), cs.drop s.length) else none

/-- A word that goes no further. -/
def keyword (s : String) : Reader Unit := fun cs => do
  let (_, rest) ← literal s cs
  if rest.head?.any isNameChar then none else some ((), rest)

def oneOf (words : List String) : Reader Unit := fun cs => words.findSome? (keyword · cs)

/-- Letters that belong to the quotes behind them. -/
def startsQuoted : Chars → Bool
  | 'r' :: '"' :: _ | 'r' :: '#' :: '"' :: _ | 'r' :: '#' :: '#' :: _ => true
  | 'b' :: '"' :: _ | 'b' :: '\'' :: _ | 'b' :: 'r' :: '"' :: _ | 'b' :: 'r' :: '#' :: _ => true
  | _ => false

/-- A word, and whether it is written raw: then signs and points may be in it. -/
def word : Reader (String × Bool) := fun cs =>
  if startsQuoted cs then none
  else
    match cs with
    | 'r' :: '#' :: rest =>
      let raw := rest.takeWhile isRawChar
      if raw.isEmpty then none else some ((String.ofList raw, true), rest.dropWhile isRawChar)
    | c :: rest =>
      if isNameStart c then
        some ((String.ofList (c :: rest.takeWhile isNameChar), false), rest.dropWhile isNameChar)
      else none
    | [] => none

/-- A word in the place of a name, which must be raw to be followed by a sign or a point. -/
def name : Reader String := fun cs => do
  let ((text, raw), rest) ← word cs
  if !raw && rest.head?.any isRawChar then none else some (text, rest)

end Archipelago.Ron
