import Archipelago.Ron.Word
import Archipelago.Text.Search

/-! # Quoted text of RON -/

namespace Archipelago.Ron

/-- The letter that an escape of one letter stands for. -/
def simpleEscape? : Char → Option Char
  | '"' => some '"'
  | '\'' => some '\''
  | '\\' => some '\\'
  | 'n' => some '\n'
  | 'r' => some '\r'
  | 't' => some '\t'
  | '0' => some '\x00'
  | _ => none

/-- A number in digits to the base of sixteen. -/
def hexNat? (cs : Chars) : Option Nat :=
  cs.foldlM (fun n c => (Text.hexValue? c).map (n * 16 + ·)) 0

/-- Two hexadecimal digits. -/
def hexByte : Reader UInt8
  | a :: b :: cs => (hexNat? [a, b]).map fun n => (UInt8.ofNat n, cs)
  | _ => none

/-- Up to six hexadecimal digits in braces. -/
def codePoint : Reader Char
  | '{' :: cs => do
    let digits := cs.takeWhile (· ≠ '}')
    if digits.isEmpty || 6 < digits.length then none
    let n ← hexNat? digits
    match cs.dropWhile (· ≠ '}') with
    | '}' :: rest => if n.isValidChar then some (Char.ofNat n, rest) else none
    | _ => none
  | _ => none

/-- A character given by its bytes, the first of which is read and the others follow as escapes. -/
def charOfBytes : (more : Nat) → List UInt8 → Reader Char
  | more, bytes, cs =>
    match (String.fromUTF8? (ByteArray.mk bytes.toArray)).map String.toList, more with
    | some (c :: _), _ => some (c, cs)
    | _, 0 => none
    | _, more + 1 =>
      match cs with
      | '\\' :: 'x' :: rest => do
        let (b, rest) ← hexByte rest
        charOfBytes more (bytes ++ [b]) rest
      | _ => none

/-- The character of an escape behind its backslash, with at most `more` bytes after a first. -/
def escape (more : Nat) : Reader Char
  | 'x' :: cs => do
    let (b, rest) ← hexByte cs
    charOfBytes more [b] rest
  | 'u' :: cs => codePoint cs
  | c :: cs => (simpleEscape? c).map (·, cs)
  | [] => none

/-- An escape among bytes, where any byte may be given. -/
def byteEscape : Reader Unit
  | 'x' :: cs => (hexByte cs).map fun r => ((), r.2)
  | 'u' :: cs => (codePoint cs).map fun r => ((), r.2)
  | c :: cs => (simpleEscape? c).map fun _ => ((), cs)
  | [] => none

/-- What follows a line break that a backslash takes away, with the blanks of the next line. -/
def continued? : Chars → Option Chars
  | '\n' :: cs | '\r' :: '\n' :: cs => some (cs.dropWhile isSpace)
  | _ => none

/-- The items up to the closing quote, last first. -/
def untilQuote {α : Type} (plain : Char → α) (escaped : Reader α) :
    (fuel : Nat) → List α → Reader (List α)
  | 0, _, _ => none
  | fuel + 1, acc, cs =>
    match cs with
    | '"' :: rest => some (acc.reverse, rest)
    | '\\' :: rest =>
      match continued? rest with
      | some rest => untilQuote plain escaped fuel acc rest
      | none => do
        let (x, rest) ← escaped rest
        untilQuote plain escaped fuel (x :: acc) rest
    | c :: rest => untilQuote plain escaped fuel (plain c :: acc) rest
    | [] => none

/-- Up to a quote and as many hash signs. -/
def untilClose (close : Chars) : Chars → Reader Chars
  | _, [] => none
  | acc, c :: cs =>
    if close.isPrefixOf (c :: cs) then some (acc.reverse, (c :: cs).drop close.length)
    else untilClose close (c :: acc) cs

/-- Raw text, of which nothing is an escape. -/
def rawText (cs : Chars) : Option (Chars × Chars) :=
  let hashes := cs.takeWhile (· = '#')
  match cs.drop hashes.length with
  | '"' :: rest => untilClose ('"' :: hashes) [] rest
  | _ => none

/-- A text between double quotes, or a raw one. -/
def text : Reader String
  | '"' :: cs => do
    let (found, rest) ← untilQuote id (escape 3) (cs.length + 1) [] cs
    some (String.ofList found, rest)
  | 'r' :: cs => (rawText cs).map fun r => (String.ofList r.1, r.2)
  | _ => none

/-- A string of bytes. -/
def byteText : Reader Unit
  | 'b' :: '"' :: cs =>
    (untilQuote (fun _ => ()) byteEscape (cs.length + 1) [] cs).map fun r => ((), r.2)
  | 'b' :: 'r' :: cs => (rawText cs).map fun r => ((), r.2)
  | _ => none

def closeQuote : Reader Unit
  | '\'' :: cs => some ((), cs)
  | _ => none

/-- A character in single quotes. -/
def quotedChar : Reader Unit
  | '\'' :: '\\' :: cs => (escape 0 cs).bind fun r => closeQuote r.2
  | '\'' :: _ :: cs => closeQuote cs
  | _ => none

/-- A byte in single quotes, which is no code point. -/
def quotedByte : Reader Unit
  | 'b' :: '\'' :: '\\' :: 'u' :: _ => none
  | 'b' :: '\'' :: '\\' :: cs => (byteEscape cs).bind fun r => closeQuote r.2
  | 'b' :: '\'' :: c :: cs => if c.toNat < 0x80 then closeQuote cs else none
  | _ => none

/-- Does a text in double quotes start here, raw or not? -/
def opensText : Chars → Bool
  | '"' :: _ => true
  | 'r' :: cs => (cs.dropWhile (· = '#')).head? == some '"'
  | _ => false

/-- Passes over what may stand in quotes: a character, then text, then bytes. -/
def skipQuoted (cs : Chars) : Option Chars := do
  let cs := ((quotedChar cs).map (·.2)).getD cs
  let cs ← if opensText cs then (text cs).map (·.2) else some cs
  match cs with
  | 'b' :: rest => if opensText rest then (byteText cs).map (·.2) else some cs
  | _ => some cs

end Archipelago.Ron
