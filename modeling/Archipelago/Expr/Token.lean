import Archipelago.Decimal.Layout
import Archipelago.Decimal.Reader
import Archipelago.Expr.Error
import Archipelago.Text.Quoted

/-! # Tokens of expression text -/

namespace Archipelago.Expr

/-- The roots of what an expression reads. -/
inductive Root where
  | vars
  | resident
deriving DecidableEq, Repr

/-- What a text is cut into. -/
inductive Token where
  | number (x : Float)
  | str (s : String)
  | ident (name : String)
  | root (r : Root)
  | dot
  | comma
  | lparen
  | rparen
  | lbracket
  | rbracket
  | plus
  | minus
  | star
  | slash
  | percent
  | eqEq
  | notEq
  | lt
  | le
  | gt
  | ge
  | andAnd
  | orOr
  | bang

namespace Token

/-- How an error message names a token. -/
def describe : Token → String
  | number x => "Number(" ++ Decimal.Layout.quoted.format x ++ ")"
  | str s => "Str(" ++ Text.quoted s ++ ")"
  | ident name => "Ident(" ++ Text.quoted name ++ ")"
  | root .vars => "Root(\"vars\")"
  | root .resident => "Root(\"resident\")"
  | dot => "Dot"
  | comma => "Comma"
  | lparen => "LParen"
  | rparen => "RParen"
  | lbracket => "LBracket"
  | rbracket => "RBracket"
  | plus => "Plus"
  | minus => "Minus"
  | star => "Star"
  | slash => "Slash"
  | percent => "Percent"
  | eqEq => "EqEq"
  | notEq => "NotEq"
  | lt => "Lt"
  | le => "Le"
  | gt => "Gt"
  | ge => "Ge"
  | andAnd => "AndAnd"
  | orOr => "OrOr"
  | bang => "Bang"

end Token

/-- A token at the front of a text: its width in bytes and what follows it. -/
structure Lexeme where
  token : Token
  width : Nat
  rest : List Char

namespace Lexer

open Text (isBlank isLetter isLetterOrDigit byteLength)

/-- The characters that a name goes on with. -/
def isNameChar (c : Char) : Bool := isLetterOrDigit c || c = '_'

/-- Digits, and a point with digits if a digit follows the point. -/
def number (pos : Nat) (cs : List Char) : Except EvalError Lexeme :=
  let whole := cs.takeWhile Char.isDigit
  let rest := cs.dropWhile Char.isDigit
  let (digits, rest) := match rest with
    | '.' :: d :: r =>
      if d.isDigit then
        (whole ++ '.' :: (d :: r).takeWhile Char.isDigit, (d :: r).dropWhile Char.isDigit)
      else (whole, rest)
    | _ => (whole, rest)
  match Decimal.unsigned? digits with
  | some x => .ok ⟨.number x, digits.length, rest⟩
  | none => .error (.malformed pos s!"invalid number '{String.ofList digits}'")

/-- The text up to the closing quote; a backslash takes the next character as it is, but for a
line break and a tab. `none` if the quote is missing. -/
def stringRest (quote : Char) : List Char → Nat → List Char → Option (List Char × Nat × List Char)
  | _, _, [] => none
  | _, _, ['\\'] => none
  | acc, width, '\\' :: c :: cs =>
    let kept := if c = 'n' then '\n' else if c = 't' then '\t' else c
    stringRest quote (kept :: acc) (width + 1 + c.utf8Size) cs
  | acc, width, c :: cs =>
    if c = quote then some (acc.reverse, width + 1, cs)
    else stringRest quote (c :: acc) (width + c.utf8Size) cs

/-- Comparisons may be written with a further equals sign. -/
def dropEquals (t : Token) (width : Nat) : List Char → Lexeme
  | '=' :: cs => ⟨t, width + 1, cs⟩
  | cs => ⟨t, width, cs⟩

/-- A sign of one or two characters. -/
def symbol (pos : Nat) (c : Char) (cs : List Char) : Except EvalError Lexeme :=
  match c with
  | '.' => .ok ⟨.dot, 1, cs⟩
  | ',' => .ok ⟨.comma, 1, cs⟩
  | '(' => .ok ⟨.lparen, 1, cs⟩
  | ')' => .ok ⟨.rparen, 1, cs⟩
  | '[' => .ok ⟨.lbracket, 1, cs⟩
  | ']' => .ok ⟨.rbracket, 1, cs⟩
  | '+' => .ok ⟨.plus, 1, cs⟩
  | '-' => .ok ⟨.minus, 1, cs⟩
  | '*' => .ok ⟨.star, 1, cs⟩
  | '/' => .ok ⟨.slash, 1, cs⟩
  | '%' => .ok ⟨.percent, 1, cs⟩
  | '=' =>
    match cs with
    | '=' :: r => .ok (dropEquals .eqEq 2 r)
    | _ => .error (.malformed pos "expected '='")
  | '!' =>
    match cs with
    | '=' :: r => .ok (dropEquals .notEq 2 r)
    | _ => .ok ⟨.bang, 1, cs⟩
  | '<' =>
    match cs with
    | '=' :: r => .ok ⟨.le, 2, r⟩
    | _ => .ok ⟨.lt, 1, cs⟩
  | '>' =>
    match cs with
    | '=' :: r => .ok ⟨.ge, 2, r⟩
    | _ => .ok ⟨.gt, 1, cs⟩
  | '&' =>
    match cs with
    | '&' :: r => .ok ⟨.andAnd, 2, r⟩
    | _ => .error (.malformed pos "expected '&'")
  | '|' =>
    match cs with
    | '|' :: r => .ok ⟨.orOr, 2, r⟩
    | _ => .error (.malformed pos "expected '|'")
  | c => .error (.malformed pos s!"unexpected '{c}'")

/-- The token that starts with `c`, which is no blank. -/
def next (pos : Nat) (c : Char) (cs : List Char) : Except EvalError Lexeme :=
  if c.isDigit then number pos (c :: cs)
  else if c = '"' || c = '\'' then
    match stringRest c [] 1 cs with
    | some (s, width, rest) => .ok ⟨.str (String.ofList s), width, rest⟩
    | none => .error (.malformed pos "unterminated string")
  else if c = '$' then
    let name := cs.takeWhile isNameChar
    let rest := cs.dropWhile isNameChar
    if name = "vars".toList then .ok ⟨.root .vars, 5, rest⟩
    else if name = "resident".toList then .ok ⟨.root .resident, 9, rest⟩
    else .error (.unknownIdentifier ("$" ++ String.ofList name))
  else if isLetter c || c = '_' then
    let name := (c :: cs).takeWhile isNameChar
    .ok ⟨.ident (String.ofList name), byteLength name, (c :: cs).dropWhile isNameChar⟩
  else symbol pos c cs

/-- Every token consumes a character, so the length of the text bounds the run. -/
def run : (fuel : Nat) → (pos : Nat) → List Char → Except EvalError (List (Nat × Token))
  | _, _, [] => .ok []
  | 0, _, _ => .ok []
  | fuel + 1, pos, c :: cs =>
    if isBlank c then run fuel (pos + c.utf8Size) cs
    else do
      let l ← next pos c cs
      let more ← run fuel (pos + l.width) l.rest
      .ok ((pos, l.token) :: more)

end Lexer

/-- The tokens of a text, each with its byte offset. -/
def tokenize (cs : List Char) : Except EvalError (List (Nat × Token)) :=
  Lexer.run cs.length 0 cs

end Archipelago.Expr
