import Archipelago.Text.Letter

/-! # Places in a source text -/

namespace Archipelago

/-- Byte offsets of a construct, with the line and the column, in characters, of its start. -/
structure Span where
  start : Nat := 0
  stop : Nat := 0
  line : Nat := 0
  column : Nat := 0
deriving DecidableEq, Repr, Inhabited

namespace Span

/-- Line and column, as messages show them. -/
def text (s : Span) : String := s!"{s.line}:{s.column}"

/-- The characters before a byte offset, nearest first. -/
def before : (offset : Nat) → (seen : List Char) → List Char → List Char
  | _, seen, [] => seen
  | offset, seen, c :: cs =>
    if offset < c.utf8Size then seen else before (offset - c.utf8Size) (c :: seen) cs

/-- The line is one more than the line breaks before `start`; the column is one more than the
characters since the last of them. -/
def locate (src : List Char) (start stop : Nat) : Span :=
  let start := min start (Text.byteLength src)
  let seen := before start [] src
  { start, stop := max stop start
    line := seen.count '\n' + 1
    column := (seen.takeWhile (· ≠ '\n')).length + 1 }

end Span

/-- A place in a text that moves both ways and keeps its line and column, so that spans asked for
roughly in order cost one pass over the text. -/
structure Locator where
  /-- The characters before the place, nearest first. -/
  before : List Char
  /-- The characters behind it. -/
  behind : List Char
  offset : Nat
  line : Nat
  column : Nat

namespace Locator

/-- At the start of a text. -/
def ofChars (src : List Char) : Locator := ⟨[], src, 0, 1, 1⟩

/-- Moves on to the offset `target`, or to the end of the text. -/
def forward (before : List Char) (offset line column target : Nat) : List Char → Locator
  | [] => ⟨before, [], offset, line, column⟩
  | c :: cs =>
    if offset < target then
      if c = '\n' then forward (c :: before) (offset + c.utf8Size) (line + 1) 1 target cs
      else forward (c :: before) (offset + c.utf8Size) line (column + 1) target cs
    else ⟨before, c :: cs, offset, line, column⟩

/-- The first characters, as many as it takes to fill so many bytes. -/
def filling : (bytes : Nat) → List Char → List Char
  | 0, _ => []
  | _, [] => []
  | bytes, c :: cs => c :: filling (bytes - c.utf8Size) cs

/-- Moves back to the offset `target`. On the same line the column is counted down; on another one
it is counted anew from the start of that line. -/
def backward (l : Locator) (target : Nat) : Locator :=
  let back := filling (l.offset - target) l.before
  let before := l.before.drop back.length
  let breaks := back.count '\n'
  { before, behind := back.reverse ++ l.behind
    offset := l.offset - Text.byteLength back
    line := l.line - breaks
    column :=
      if breaks = 0 then l.column - back.length
      else (before.takeWhile (· ≠ '\n')).length + 1 }

/-- To a place in front of this one or behind it. -/
def seek (l : Locator) (target : Nat) : Locator :=
  if l.offset ≤ target then forward l.before l.offset l.line l.column target l.behind
  else l.backward target

/-- The span from `start`, which is where the locator is left. -/
def span (l : Locator) (start stop : Nat) : Span × Locator :=
  let l := l.seek start
  ({ start := l.offset, stop := max stop l.offset, line := l.line, column := l.column }, l)

end Locator

end Archipelago
