import Archipelago.Text.Graphic
import Archipelago.Text.Letter

/-! # Text between double quotes -/

namespace Archipelago.Text

/-- A code point as it is escaped when it cannot be shown. -/
def escapeCode (c : Char) : List Char :=
  ['\\', 'u', '{'] ++ Nat.toDigits 16 c.toNat ++ ['}']

/-- A character in a text that is quoted in a message. -/
def quoteChar (c : Char) : List Char :=
  if c = '"' then ['\\', '"']
  else if c = '\\' then ['\\', '\\']
  else if c = '\n' then ['\\', 'n']
  else if c = '\r' then ['\\', 'r']
  else if c = '\t' then ['\\', 't']
  else if c.toNat = 0 then ['\\', '0']
  else if c.toNat < 0x80 then (if isControl c then escapeCode c else [c])
  else if inRanges graphicRanges c then [c] else escapeCode c

/-- A text as messages quote it. -/
def quoted (s : String) : String := String.ofList ('"' :: s.toList.flatMap quoteChar ++ ['"'])

end Archipelago.Text
