import Archipelago.Text.CaseRuns
import Archipelago.Text.Cased
import Archipelago.Text.Letter

/-! # Full case mapping -/

namespace Archipelago.Text

namespace CaseRun

/-- Does a run hold this code? -/
def covers (r : CaseRun) (n : Nat) : Bool :=
  r.first ≤ n && n ≤ r.last && (n - r.first) % r.step == 0

end CaseRun

/-- The special cases go first; a letter that is in no run stays as it is. -/
def mapCase (runs : List CaseRun) (special : List (Nat × List Char)) (c : Char) : List Char :=
  match special.lookup c.toNat with
  | some cs => cs
  | none =>
    match runs.find? (·.covers c.toNat) with
    | some r => [Char.ofNat (c.toNat + r.shift).toNat]
    | none => [c]

/-- A letter in lower case, which may be more than one. -/
def lowerChar (c : Char) : List Char :=
  if c.toNat < 0x80 then [c.toLower] else mapCase lowerRuns lowerSpecial c

/-- A letter in upper case, which may be more than one. -/
def upperChar (c : Char) : List Char :=
  if c.toNat < 0x80 then [c.toUpper] else mapCase upperRuns upperSpecial c

/-- The first character that is not case-ignorable exists and is cased. -/
def meetsCased (cs : List Char) : Bool :=
  match cs.dropWhile (inRanges caseIgnorableRanges) with
  | c :: _ => inRanges casedRanges c
  | [] => false

/-- A sigma that ends a word, after `before` (nearest first), takes its final form. -/
def lowerAfter (before : List Char) : List Char → List Char
  | [] => []
  | c :: cs =>
    let mapped :=
      if c = 'Σ' then (if meetsCased before && !meetsCased cs then ['ς'] else ['σ'])
      else lowerChar c
    mapped ++ lowerAfter (c :: before) cs

/-- A text in lower case. What a sigma becomes depends on the letters around it. -/
def lower (s : String) : String := String.ofList (lowerAfter [] s.toList)

/-- A text in upper case. -/
def upper (s : String) : String := String.ofList (s.toList.flatMap upperChar)

/-- Only the ASCII letters change. -/
def asciiLower (s : String) : String := String.ofList (s.toList.map Char.toLower)

end Archipelago.Text
