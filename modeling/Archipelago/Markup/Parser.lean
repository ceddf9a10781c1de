import Archipelago.Decimal.Reader
import Archipelago.Markup
import Archipelago.Text.Letter
import Archipelago.Text.Search

/-! # Reading markup -/

namespace Archipelago.Markup

/-! ## Character references -/

/-- A code point below `2 ^ 32` that is a character. -/
def character? (n : Nat) : Option Char :=
  if n < 0xd800 || (0xe000 ≤ n && n < 0x110000) then some (Char.ofNat n) else none

/-- The character that a reference names between its ampersand and its semicolon. -/
def reference? (name : List Char) : Option Char :=
  match String.ofList name with
  | "amp" => some '&'
  | "lt" => some '<'
  | "gt" => some '>'
  | "quot" => some '"'
  | "apos" => some '\''
  | _ =>
    match name with
    | '#' :: 'x' :: hex | '#' :: 'X' :: hex => (Text.digitsIn? 16 hex).bind character?
    | '#' :: dec => (Text.digitsIn? 10 dec).bind character?
    | _ => none

/-- The longest name has nine characters. -/
def maxNameLength : Nat := 9

/-- A reference at the front of the text behind an ampersand, and what follows it. -/
def referenceAt? (cs : List Char) : Option (Char × List Char) :=
  let name := (cs.take maxNameLength).takeWhile (· ≠ ';')
  match cs.drop name.length with
  | ';' :: rest => (reference? name).map (·, rest)
  | _ => none

/-- Replaces the references; an ampersand without one stays. Every step consumes a character. -/
def decodeChars : (fuel : Nat) → List Char → List Char
  | 0, cs => cs
  | _, [] => []
  | fuel + 1, c :: cs =>
    if c = '&' then
      match referenceAt? cs with
      | some (d, rest) => d :: decodeChars fuel rest
      | none => '&' :: decodeChars fuel cs
    else c :: decodeChars fuel cs

/-- A text with its references replaced by what they stand for. -/
def decode (cs : List Char) : List Char := decodeChars cs.length cs

/-- A text as its author means it. -/
def decodeEntities (s : String) : String := String.ofList (decode s.toList)

/-! ## Tags and elements -/

/-- A place in the text that is being read. -/
structure Cursor where
  pos : Nat
  rest : List Char
  locator : Locator

namespace Cursor

/-- At the start of a text. -/
def ofChars (src : List Char) : Cursor := ⟨0, src, .ofChars src⟩

/-- Moves behind the characters `taken`, which leave `rest`. -/
def behind (c : Cursor) (taken rest : List Char) : Cursor :=
  { c with pos := c.pos + Text.byteLength taken, rest }

/-- Behind so many characters. -/
def drop (c : Cursor) (n : Nat) : Cursor := c.behind (c.rest.take n) (c.rest.drop n)

/-- The characters in front that have a property, and the place behind them. -/
def takeWhile (c : Cursor) (p : Char → Bool) : List Char × Cursor :=
  let taken := c.rest.takeWhile p
  (taken, c.behind taken (c.rest.dropWhile p))

/-- Behind the blanks. -/
def skipBlanks (c : Cursor) : Cursor := (c.takeWhile Text.isBlank).2

/-- At the end of the text. -/
def toEnd (c : Cursor) : Cursor := c.behind c.rest []

/-- The span from `start` to here. -/
def span (c : Cursor) (start : Nat) : Span × Cursor :=
  let (s, locator) := c.locator.span start c.pos
  (s, { c with locator })

/-- What is wrong with a piece that starts at a place and that goes as far as here. -/
def malformed (c : Cursor) (start : Nat) (message : String) : CompileError :=
  ⟨.malformed, message, (c.span start).1⟩

end Cursor

/-- The characters of the names of tags and attributes. -/
def isNameChar (c : Char) : Bool :=
  c.isAlphanum || c = '-' || c = '_' || c = ':' || c = '.'

/-- The name that stands here, which may be empty. -/
def name (c : Cursor) : String × Cursor :=
  let (cs, c) := c.takeWhile isNameChar
  (String.ofList cs, c)

/-- A value in quotes, or up to a blank, a slash or the end of the tag. -/
def attrValue (attrStart : Nat) (c : Cursor) : Except CompileError (String × Cursor) :=
  match c.rest with
  | q :: _ =>
    if q = '"' || q = '\'' then
      let (raw, c) := (c.drop 1).takeWhile (· ≠ q)
      if c.rest.isEmpty then .error (c.malformed attrStart "unterminated attribute value")
      else .ok (String.ofList (decode raw), c.drop 1)
    else
      let (raw, c) := c.takeWhile fun d => !Text.isBlank d && d != '>' && d != '/'
      if raw.isEmpty then .error (c.malformed attrStart "missing attribute value")
      else .ok (String.ofList (decode raw), c)
  | [] => .error (c.malformed attrStart "missing attribute value")

/-- One attribute of the tag `tag`. -/
def readAttr (tag : String) (c : Cursor) : Except CompileError (Attr × Cursor) := do
  let start := c.pos
  let (attrName, c) := name c
  if attrName = "" then .error (c.malformed start s!"invalid character in tag <{tag}")
  else
    let c := c.skipBlanks
    let (value, c) ← match c.rest with
      | '=' :: _ => attrValue start (c.drop 1).skipBlanks
      | _ => .ok ("", c)
    let (span, c) := c.span start
    .ok (⟨attrName, value, span⟩, c)

/-- The attributes up to the end of the tag; the flag tells that it closes itself. Every
attribute consumes a character, so the length of the text is fuel enough. -/
def attributes (start : Nat) (tag : String) :
    (fuel : Nat) → List Attr → Cursor → Except CompileError ((List Attr × Bool) × Cursor)
  | 0, _, c => .error (c.malformed start s!"unterminated tag <{tag}")
  | fuel + 1, acc, c =>
    let c := c.skipBlanks
    match c.rest with
    | [] => .error (c.malformed start s!"unterminated tag <{tag}")
    | '>' :: _ => .ok ((acc.reverse, false), c.drop 1)
    | '/' :: '>' :: _ => .ok ((acc.reverse, true), c.drop 2)
    | '/' :: _ => .error ((c.drop 2).malformed start s!"malformed tag <{tag}")
    | _ => do
      let (a, c) ← readAttr tag c
      attributes start tag fuel (a :: acc) c

/-- An opening tag, at its angle bracket, with fuel for its attributes. -/
def openTag (fuel : Nat) (c : Cursor) : Except CompileError ((OpenTag × Bool) × Cursor) := do
  let start := c.pos
  let (tag, c) := name (c.drop 1)
  let ((attrs, closed), c) ← attributes start tag fuel [] c
  let (span, c) := c.span start
  .ok ((⟨tag, attrs, span⟩, closed), c)

/-- A closing tag, at its angle bracket: its name. -/
def closingTag (c : Cursor) : Except CompileError (String × Cursor) :=
  let start := c.pos
  let (tag, c) := name (c.drop 2)
  let c := c.skipBlanks
  match c.rest with
  | '>' :: _ => .ok (tag, c.drop 1)
  | _ => .error ((c.drop 1).malformed start s!"malformed closing tag </{tag}")

/-- Splits the text behind the first end of a comment. -/
def comment? : List Char → Option (List Char × List Char)
  | '-' :: '-' :: '>' :: cs => some (['-', '-', '>'], cs)
  | c :: cs => (comment? cs).map fun split => (c :: split.1, split.2)
  | [] => none

def startsComment : List Char → Bool
  | '<' :: '!' :: '-' :: '-' :: _ => true
  | _ => false

def startsClosing : List Char → Bool
  | '<' :: '/' :: _ => true
  | _ => false

def startsOpening : List Char → Bool
  | '<' :: c :: _ => c.isAlpha
  | _ => false

/-- Is this the start of anything but text? -/
def startsPiece (cs : List Char) : Bool := startsComment cs || startsClosing cs || startsOpening cs

/-- Text up to the next comment or tag. -/
def textRun : List Char → List Char × List Char
  | [] => ([], [])
  | c :: cs =>
    if startsPiece (c :: cs) then ([], c :: cs)
    else
      let (run, rest) := textRun cs
      (c :: run, rest)

/-- Elements whose closing tag is still to come, the innermost first, with their children so far
in reverse, above the finished top-level nodes in reverse. -/
structure Forest where
  opened : List (OpenTag × List RawNode)
  done : List RawNode

namespace Forest

/-- A node becomes the last child of the innermost element that is open, or stands at the top. -/
def add (f : Forest) (n : RawNode) : Forest :=
  match f.opened with
  | (tag, children) :: outer => { f with opened := (tag, n :: children) :: outer }
  | [] => { f with done := n :: f.done }

end Forest

/-- Reads nodes until the text ends. Every round consumes a character, and so the fuel is never
less than the characters that are left. -/
def nodes (maxDepth : Nat) : (fuel : Nat) → Forest → Cursor → Except CompileError (List RawNode)
  | 0, f, _ => .ok f.done.reverse
  | fuel + 1, f, c =>
    let start := c.pos
    if c.rest.isEmpty then
      match f.opened with
      | (tag, _) :: _ => .error ⟨.malformed, s!"unclosed tag <{tag.name}>", tag.span⟩
      | [] => .ok f.done.reverse
    else if startsComment c.rest then
      match comment? c.rest with
      | some (taken, rest) => nodes maxDepth fuel f (c.behind taken rest)
      | none => .error (c.toEnd.malformed start "unterminated comment")
    else if startsClosing c.rest then do
      let (tag, c) ← closingTag c
      match f.opened with
      | (opened, children) :: outer =>
        if opened.name = tag then
          let closed := RawNode.element opened children.reverse
          nodes maxDepth fuel ({ f with opened := outer }.add closed) c
        else
          .error (c.malformed start
            s!"closing tag </{tag}> does not match <{opened.name}> opened at {opened.span.text}")
      | [] => .error (c.malformed start s!"unexpected closing tag </{tag}>")
    else if startsOpening c.rest then do
      let ((tag, closed), c) ← openTag fuel c
      if maxDepth ≤ f.opened.length then
        .error ⟨.limitExceeded, s!"nesting deeper than {maxDepth} levels", tag.span⟩
      else if closed || voidElements.contains tag.name then
        nodes maxDepth fuel (f.add (.element tag [])) c
      else nodes maxDepth fuel { f with opened := (tag, []) :: f.opened } c
    else
      let (run, rest) := textRun c.rest
      let c := c.behind run rest
      let (span, c) := c.span start
      nodes maxDepth fuel (f.add (.text (String.ofList (decode run)) span)) c

/-- Reads markup whose elements nest at most `maxDepth` deep. -/
def parse (maxDepth : Nat) (src : String) : Except CompileError (List RawNode) :=
  let cs := src.toList
  nodes maxDepth (cs.length + 1) ⟨[], []⟩ (.ofChars cs)

end Archipelago.Markup
