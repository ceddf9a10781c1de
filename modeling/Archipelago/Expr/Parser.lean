import Archipelago.Config
import Archipelago.Expr
import Archipelago.Expr.Token
import Archipelago.Text.Search

/-! # The expression grammar -/

namespace Archipelago.Expr

/-- Tokens with the places where they start. -/
abbrev Tokens := List (Nat × Token)

/-- A parser takes an expression from the front of the tokens. -/
abbrev Parser := Tokens → Except EvalError (Expr × Tokens)

namespace Parser

/-- Where the first token starts; `stop` is the length of the text. -/
def offset (stop : Nat) : Tokens → Nat
  | (o, _) :: _ => o
  | [] => stop

/-- Nothing is read where the nesting is too deep. -/
def tooDeep (limit : Nat) : Parser := fun _ => .error (.limitExceeded s!"nesting depth {limit}")

/-- Operands joined by left-associative operators, after the first one. The fuel is the number of
tokens: every round consumes an operator. -/
def chain (operand : Parser) (operator? : Token → Option (Expr → Expr → Expr)) :
    (fuel : Nat) → Expr → Parser
  | 0, left, toks => .ok (left, toks)
  | _ + 1, left, [] => .ok (left, [])
  | fuel + 1, left, (o, t) :: rest =>
    match operator? t with
    | none => .ok (left, (o, t) :: rest)
    | some join => do
      let (right, rest) ← operand rest
      chain operand operator? fuel (join left right) rest

/-- Operators of one level, which take what is to the left of them. -/
def leftAssoc (operand : Parser) (operator? : Token → Option (Expr → Expr → Expr)) : Parser :=
  fun toks => do
    let (first, rest) ← operand toks
    chain operand operator? rest.length first rest

/-- The operands after the first one, each behind a separator. -/
def more (operand : Parser) (isSeparator : Token → Bool) :
    (fuel : Nat) → Tokens → Except EvalError (List Expr × Tokens)
  | 0, toks => .ok ([], toks)
  | _ + 1, [] => .ok ([], [])
  | fuel + 1, (o, t) :: rest =>
    if isSeparator t then do
      let (e, rest) ← operand rest
      let (es, rest) ← more operand isSeparator fuel rest
      .ok (e :: es, rest)
    else .ok ([], (o, t) :: rest)

/-- One operand stands for itself, several are joined. -/
def joined (operand : Parser) (isSeparator : Token → Bool) (join : List Expr → Expr) : Parser :=
  fun toks => do
    let (first, rest) ← operand toks
    let (es, rest) ← more operand isSeparator rest.length rest
    .ok (if es.isEmpty then first else join (first :: es), rest)

def product? : Token → Option (Expr → Expr → Expr)
  | .star => some (.arith .mul)
  | .slash => some (.arith .div)
  | .percent => some (.arith .mod)
  | _ => none

def sum? : Token → Option (Expr → Expr → Expr)
  | .plus => some (.arith .add)
  | .minus => some (.arith .sub)
  | _ => none

def comparison? : Token → Option (Expr → Expr → Expr)
  | .lt => some (.relation .lt)
  | .le => some (.relation .le)
  | .gt => some (.relation .gt)
  | .ge => some (.relation .ge)
  | _ => none

def equality? : Token → Option (Expr → Expr → Expr)
  | .eqEq => some (.relation .eq)
  | .notEq => some (.relation .ne)
  | _ => none

/-- From the loosest operator down to the operands of products. -/
def disjunction (unary : Parser) : Parser :=
  let product := leftAssoc unary product?
  let sum := leftAssoc product sum?
  let comparison := leftAssoc sum comparison?
  let equality := leftAssoc comparison equality?
  let conjunction := joined equality (· matches .andAnd) .all
  joined conjunction (· matches .orOr) .any

/-- The next token must be a certain one. -/
def expect (stop : Nat) (isToken : Token → Bool) (name : String) (toks : Tokens) :
    Except EvalError Tokens :=
  match toks with
  | (o, t) :: rest => if isToken t then .ok rest else .error (.malformed o s!"expected {name}")
  | [] => .error (.malformed stop s!"expected {name}")

def expectDot (stop : Nat) : Tokens → Except EvalError Tokens :=
  expect stop (· matches .dot) "Dot"

def expectParen (stop : Nat) : Tokens → Except EvalError Tokens :=
  expect stop (· matches .rparen) "RParen"

def expectBracket (stop : Nat) : Tokens → Except EvalError Tokens :=
  expect stop (· matches .rbracket) "RBracket"

/-- A name behind a dot; a call must be of one of the known methods. -/
def method (stop : Nat) (expression : Parser) (target : Expr) (name : String) : Parser
  | (_, .lparen) :: rest =>
    if name = "includes" then do
      let (arg, rest) ← expression rest
      let rest ← expectParen stop rest
      .ok (.includes target arg, rest)
    else if name = "toLowerCase" then do
      let rest ← expectParen stop rest
      .ok (.text .lower target, rest)
    else if name = "toUpperCase" then do
      let rest ← expectParen stop rest
      .ok (.text .upper target, rest)
    else if name = "trim" then do
      let rest ← expectParen stop rest
      .ok (.text .trim target, rest)
    else .error (.unsupportedMethod name)
  | toks => .ok (if name = "length" then .length target else .member target name, toks)

/-- Reads and calls behind an operand. -/
def accesses (stop : Nat) (expression : Parser) : (fuel : Nat) → Expr → Parser
  | 0, e, toks => .ok (e, toks)
  | _ + 1, e, [] => .ok (e, [])
  | fuel + 1, e, (o, t) :: rest =>
    match t with
    | .dot =>
      match rest with
      | (_, .ident name) :: rest => do
        let (e, rest) ← method stop expression e name rest
        accesses stop expression fuel e rest
      | _ => .error (.malformed (offset stop rest) "expected property name")
    | .lbracket => do
      let (i, rest) ← expression rest
      let rest ← expectBracket stop rest
      accesses stop expression fuel (.index e i) rest
    | .lparen => .error (.unsupportedMethod "call on a non-method value")
    | _ => .ok (e, (o, t) :: rest)

/-- A word that is a literal, or a bare name. -/
def word (name : String) : Parser := fun toks =>
  if name = "true" then .ok (.literal (.bool true), toks)
  else if name = "false" then .ok (.literal (.bool false), toks)
  else if name = "null" then .ok (.literal .null, toks)
  else if name = "undefined" then .ok (.literal .undefined, toks)
  else match toks with
    | (_, .lparen) :: _ => .error (.unsupportedMethod name)
    | _ => .ok (.binding name, toks)

/-- What an operand starts with: a literal, a name, a root, or an expression in parentheses. -/
def primary (stop : Nat) (expression : Parser) : Parser
  | [] => .error (.malformed stop "unexpected end of expression")
  | (o, t) :: rest =>
    match t with
    | .number x => .ok (.literal (.number x), rest)
    | .str s => .ok (.literal (.string s), rest)
    | .root .resident => .ok (.resident, rest)
    | .root .vars => do
      let named ← expectDot stop rest
      match named with
      | (_, .ident name) :: rest => .ok (.var name, rest)
      | _ => .error (.malformed (offset stop rest) "expected variable name")
    | .ident name => word name rest
    | .lparen => do
      let (e, rest) ← expression rest
      let rest ← expectParen stop rest
      .ok (e, rest)
    | t => .error (.malformed o s!"unexpected token {t.describe}")

/-- A start with members, indices and calls behind it. -/
def operand (stop : Nat) (expression : Parser) : Parser := fun toks => do
  let (e, rest) ← primary stop expression toks
  accesses stop expression rest.length e rest

/-- Operators before an operand; `deeper` reads what one of them applies to. -/
def signed (stop : Nat) (deeper expression : Parser) : Parser
  | (_, .bang) :: rest => do
    let (e, rest) ← deeper rest
    .ok (.not e, rest)
  | (_, .minus) :: rest => do
    let (e, rest) ← deeper rest
    .ok (.neg e, rest)
  | toks => operand stop expression toks

/-- An operand that may nest `room` levels; parentheses, indices, arguments and the operators
before an operand each take one. -/
def unary (stop limit : Nat) : (room : Nat) → Parser
  | 0, toks => signed stop (tooDeep limit) (tooDeep limit) toks
  | room + 1, toks => signed stop (unary stop limit room) (disjunction (unary stop limit room)) toks

/-- An expression, with room for so many levels of nesting. -/
def expression (stop limit : Nat) : (room : Nat) → Parser
  | 0, toks => tooDeep limit toks
  | room + 1, toks => disjunction (unary stop limit room) toks

end Parser

/-- An expression is all that is there. -/
def parseTokens (stop limit : Nat) (toks : Tokens) : Except EvalError Expr := do
  let (e, rest) ← Parser.expression stop limit limit toks
  match rest with
  | [] => .ok e
  | (o, t) :: _ => .error (.malformed o s!"unexpected token {t.describe}")

/-- Reads expression text within the limits of its length in bytes and of its nesting. -/
def parse (limits : EvalLimits) (src : String) : Except EvalError Expr := do
  if limits.maxExpressionLength < src.utf8ByteSize then
    .error (.limitExceeded s!"{limits.maxExpressionLength} bytes")
  else
    let toks ← tokenize src.toList
    parseTokens src.utf8ByteSize limits.maxNesting toks

/-- Reads a bare path such as `user.city` as one below the variables. -/
def parsePath (limits : EvalLimits) (path : String) : Except EvalError Expr :=
  let path := Text.trim path
  let path := (Text.after? "$vars." path).getD path
  if Text.startsWith "$resident" path then parse limits path
  else parse limits ("$vars." ++ path)

end Archipelago.Expr
