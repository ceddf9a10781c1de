import Archipelago.Proofs.Expr.Paths
import Archipelago.Proofs.Value.Numbers

/-!
# Texts of expressions

An expression is written with parentheses only where its place holds it together more tightly than
it is itself. Blanks stand around the operators between operands, and every other token ends
where the next one starts. So the tokens of the text are those that were written.
-/

namespace Archipelago

namespace ArithOp

/-- Products bind tighter than sums. -/
def level : ArithOp → Nat
  | add | sub => 4
  | mul | div | mod => 5

/-- The token of an operator. -/
def token : ArithOp → Expr.Token
  | add => .plus
  | sub => .minus
  | mul => .star
  | div => .slash
  | mod => .percent

end ArithOp

namespace Relation

/-- Comparisons bind tighter than equality. -/
def level : Relation → Nat
  | eq | ne => 2
  | lt | le | gt | ge => 3

/-- The token of a comparison. -/
def token : Relation → Expr.Token
  | eq => .eqEq
  | ne => .notEq
  | lt => .lt
  | le => .le
  | gt => .gt
  | ge => .ge

end Relation

/-- The method that a text operation is called by. -/
def TextOp.method : TextOp → String
  | lower => "toLowerCase"
  | upper => "toUpperCase"
  | trim => "trim"

namespace Expr

open Compile (isIdentifier)
open Text (Stops isBlank stops_cons split_of_stops)
open Lexer (isNameChar next stringRest)

/-! ## What is written -/

/-- How tightly an expression is held together, from `||` over the operators up to operands. -/
def level : Expr → Nat
  | any _ => 0
  | all _ => 1
  | relation op _ _ => op.level
  | arith op _ _ => op.level
  | neg _ | not _ => 6
  | _ => 7

/-- A quote would end a string, and a backslash takes the next character as it is. -/
def escaped (c : Char) : List Char := if c = '"' ∨ c = '\\' then ['\\', c] else [c]

/-- The word behind the dollar sign. -/
def Root.word : Root → String
  | vars => "vars"
  | resident => "resident"

/-- How a token is written. A text is in double quotes. -/
def Token.chars : Token → List Char
  | number x => (formatNumber x).toList
  | str s => '"' :: s.toList.flatMap escaped ++ ['"']
  | ident name => name.toList
  | root r => '$' :: r.word.toList
  | dot => ['.']
  | comma => [',']
  | lparen => ['(']
  | rparen => [')']
  | lbracket => ['[']
  | rbracket => [']']
  | plus => ['+']
  | minus => ['-']
  | star => ['*']
  | slash => ['/']
  | percent => ['%']
  | eqEq => ['=', '=']
  | notEq => ['!', '=']
  | lt => ['<']
  | le => ['<', '=']
  | gt => ['>']
  | ge => ['>', '=']
  | andAnd => ['&', '&']
  | orOr => ['|', '|']
  | bang => ['!']

/-- A token of a text, with blanks around it if it joins two operands. -/
structure Piece where
  token : Token
  spaced : Bool

namespace Piece

/-- A token as it is. -/
def plain (t : Token) : Piece := ⟨t, false⟩

/-- A token with blanks around it. -/
def joint (t : Token) : Piece := ⟨t, true⟩

/-- How a piece is written. -/
def chars (p : Piece) : List Char :=
  if p.spaced then ' ' :: p.token.chars ++ [' '] else p.token.chars

end Piece

open Piece (plain joint)

/-- Parentheses around what is held together less tightly than its place requires. -/
def enclosed (loose : Bool) (ps : List Piece) : List Piece :=
  if loose then plain .lparen :: ps ++ [plain .rparen] else ps

/-- The token of a value that can be written by itself. -/
def literalToken : Value → Token
  | .null => .ident "null"
  | .bool true => .ident "true"
  | .bool false => .ident "false"
  | .number x => .number x
  | .string s => .str s
  | _ => .ident "undefined"

mutual

/-- The pieces of an expression in writing. An operand is put in parentheses where the reader would
take it apart otherwise: a right operand of the same level is not what the operator to its left
would take. -/
def pieces : Expr → List Piece
  | literal v => [plain (literalToken v)]
  | var name => [plain (.root .vars), plain .dot, plain (.ident name)]
  | resident => [plain (.root .resident)]
  | binding name => [plain (.ident name)]
  | member a name => enclosed (a.level < 7) (pieces a) ++ [plain .dot, plain (.ident name)]
  | index a i =>
    enclosed (a.level < 7) (pieces a) ++ plain .lbracket :: (pieces i ++ [plain .rbracket])
  | length a => enclosed (a.level < 7) (pieces a) ++ [plain .dot, plain (.ident "length")]
  | includes a e =>
    enclosed (a.level < 7) (pieces a) ++ plain .dot :: plain (.ident "includes") ::
      plain .lparen :: (pieces e ++ [plain .rparen])
  | text op a =>
    enclosed (a.level < 7) (pieces a) ++
      [plain .dot, plain (.ident op.method), plain .lparen, plain .rparen]
  | arith op a b =>
    enclosed (a.level < op.level) (pieces a) ++ joint op.token ::
      enclosed (b.level < op.level + 1) (pieces b)
  | neg a => plain .minus :: enclosed (a.level < 6) (pieces a)
  | relation op a b =>
    enclosed (a.level < op.level) (pieces a) ++ joint op.token ::
      enclosed (b.level < op.level + 1) (pieces b)
  | all [] | any [] => []
  | all (e :: es) => enclosed (e.level < 2) (pieces e) ++ morePieces 2 .andAnd es
  | any (e :: es) => enclosed (e.level < 1) (pieces e) ++ morePieces 1 .orOr es
  | not a => plain .bang :: enclosed (a.level < 6) (pieces a)

/-- Terms behind a first one, each behind a separator, in places of level `k`. -/
def morePieces (k : Nat) (separator : Token) : List Expr → List Piece
  | [] => []
  | e :: es => joint separator :: enclosed (e.level < k) (pieces e) ++ morePieces k separator es

end

/-- The text of an expression. -/
def source (e : Expr) : String := String.ofList (e.pieces.flatMap Piece.chars)

/-- A value that can be written by itself. -/
inductive Literal : Value → Prop
  | undefined : Literal .undefined
  | null : Literal .null
  | bool (b : Bool) : Literal (.bool b)
  | number {n : Nat} (h : n < 10 ^ 15) : Literal (.number (Float.ofNat n))
  | string (s : String) : Literal (.string s)

/-- An expression that has a text. -/
inductive Writable : Expr → Prop
  | literal {v : Value} (hv : Literal v) : Writable (literal v)
  | var {name : String} (hname : isIdentifier name = true) : Writable (var name)
  | resident : Writable resident
  | binding {name : String} (hname : isIdentifier name = true) (hword : literal? name = none) :
    Writable (binding name)
  | member {a : Expr} {name : String} (ha : Writable a) (hname : isIdentifier name = true)
    (hlength : name ≠ "length") : Writable (member a name)
  | index {a i : Expr} (ha : Writable a) (hi : Writable i) : Writable (index a i)
  | length {a : Expr} (ha : Writable a) : Writable (length a)
  | includes {a e : Expr} (ha : Writable a) (he : Writable e) : Writable (includes a e)
  | text (op : TextOp) {a : Expr} (ha : Writable a) : Writable (text op a)
  | arith (op : ArithOp) {a b : Expr} (ha : Writable a) (hb : Writable b) : Writable (arith op a b)
  | neg {a : Expr} (ha : Writable a) : Writable (neg a)
  | relation (op : Relation) {a b : Expr} (ha : Writable a) (hb : Writable b) :
    Writable (relation op a b)
  | all {es : List Expr} (hlen : 2 ≤ es.length) (hes : ∀ e ∈ es, Writable e) : Writable (all es)
  | any {es : List Expr} (hlen : 2 ≤ es.length) (hes : ∀ e ∈ es, Writable e) : Writable (any es)
  | not {a : Expr} (ha : Writable a) : Writable (not a)

example : source (arith .add (literal (.number 1))
    (arith .mul (literal (.number 2)) (literal (.number 3)))) = "1 + 2 * 3" := by
  decide +kernel

example : source (any [all [relation .gt (var "a") (literal (.number 1)), var "b"],
    not (all [var "c", var "d"])]) = "$vars.a > 1 && $vars.b || !($vars.c && $vars.d)" := by
  decide +kernel

/-! ## Tokens of a text -/

/-- The text is read as these tokens. -/
def HasTokens (ts : List Token) (cs : List Char) : Prop :=
  ∃ toks, tokenize cs = .ok toks ∧ toks.map (·.2) = ts

namespace HasTokens

variable {ts : List Token} {cs : List Char}

theorem nil : HasTokens [] [] := ⟨[], rfl, rfl⟩

theorem blank {c : Char} (hc : isBlank c = true) (h : HasTokens ts cs) :
    HasTokens ts (c :: cs) := by
  obtain ⟨toks, htoks, rfl⟩ := h
  obtain ⟨toks', hrun, hsame⟩ :=
    Lexer.run_shift htoks (Nat.le_refl _) cs.length (0 + c.utf8Size) (Nat.le_refl _)
  refine ⟨toks', ?_, hsame.symm⟩
  show Lexer.run (cs.length + 1) 0 (c :: cs) = _
  unfold Lexer.run
  rw [if_pos hc]
  exact hrun

theorem cons (c : Char) {t : Token} {w : Nat} {rest : List Char} (hc : isBlank c = false)
    (hnext : next 0 c cs = .ok ⟨t, w, rest⟩) (h : HasTokens ts rest) :
    HasTokens (t :: ts) (c :: cs) := by
  obtain ⟨toks, htoks, rfl⟩ := h
  obtain ⟨toks', hrun, hsame⟩ :=
    Lexer.run_shift htoks (Nat.le_refl _) cs.length (0 + w) (Lexer.next_length hnext)
  refine ⟨(0, t) :: toks', ?_, congrArg (t :: ·) hsame.symm⟩
  show Lexer.run (cs.length + 1) 0 (c :: cs) = _
  unfold Lexer.run
  rw [if_neg (by simp [hc])]
  exact bind_eq_ok.2 ⟨_, hnext, bind_eq_ok.2 ⟨toks', hrun, rfl⟩⟩

end HasTokens

/-! ## Where a token ends -/

/-- A token that this stands behind does not go on: it is no character of a name, and no fraction of
a number. -/
structure Closed (cs : List Char) : Prop where
  name : Stops isNameChar cs
  fraction : ∀ d rest, cs = '.' :: d :: rest → d.isDigit = false

theorem isNameChar_of_isDigit {c : Char} (h : c.isDigit = true) : isNameChar c = true := by
  have hrange := Text.toNat_of_isDigit h
  unfold isNameChar Text.isLetterOrDigit
  rw [if_pos (by omega)]
  simp [Char.isAlphanum, h]

namespace Closed

variable {cs : List Char}

theorem nil : Closed [] := ⟨by simp [Stops], by simp⟩

theorem cons {c : Char} (hname : isNameChar c = false) (hpoint : c ≠ '.') (cs : List Char) :
    Closed (c :: cs) :=
  ⟨stops_cons hname, fun _ _ h => absurd (List.cons.inj h).1 hpoint⟩

theorem point {c : Char} (hc : IsNameStart c) (cs : List Char) : Closed ('.' :: c :: cs) := by
  refine ⟨stops_cons (by decide), ?_⟩
  rintro d rest h
  obtain ⟨-, rfl, -⟩ : '.' = '.' ∧ c = d ∧ cs = rest := by simpa using h
  rcases hc with hletter | rfl
  · simpa using Text.not_isDigit_of_isLetter hletter
  · decide

theorem digit (h : Closed cs) : Stops Char.isDigit cs := by
  intro c hc
  by_contra hdigit
  rw [Bool.not_eq_false] at hdigit
  exact absurd (isNameChar_of_isDigit hdigit) (by simp [h.name c hc])

end Closed

/-- Digits with nothing of a number behind them. -/
theorem number_of_closed {n : Nat} (hn : n < 10 ^ 15) {cs : List Char} (hcs : Closed cs) :
    ∃ w, Lexer.number 0 (Nat.toDigits 10 n ++ cs) = .ok ⟨.number (Float.ofNat n), w, cs⟩ := by
  have hdigits : ∀ c ∈ Nat.toDigits 10 n, c.isDigit = true := fun c hc =>
    Nat.isDigit_of_mem_toDigits (by decide) (by decide) hc
  obtain ⟨htake, hdrop⟩ := split_of_stops hdigits hcs.digit
  unfold Lexer.number
  rw [htake, hdrop]
  refine ⟨(Nat.toDigits 10 n).length, ?_⟩
  have hread := Decimal.unsigned?_toDigits hn
  dsimp only
  rcases cs with _ | ⟨c, _ | ⟨d, cs⟩⟩
  · simp only [hread]
  · simp only [hread]
  · by_cases hc : c = '.'
    · subst hc
      simp [hread, hcs.fraction d cs rfl]
    · simp [hread, hc]

/-- A string that is written with escapes is read up to the quote behind it. -/
theorem stringRest_escaped (s cs acc : List Char) (width : Nat) :
    ∃ w, stringRest '"' acc width (s.flatMap escaped ++ '"' :: cs) =
      some (acc.reverse ++ s, w, cs) := by
  induction s generalizing acc width with
  | nil => exact ⟨width + 1, by simp [stringRest]⟩
  | cons c s ih =>
    by_cases hc : c = '"' ∨ c = '\\'
    · obtain ⟨w, hw⟩ := ih (c :: acc) (width + 1 + c.utf8Size)
      refine ⟨w, ?_⟩
      have hn : c ≠ 'n' := by rcases hc with rfl | rfl <;> decide
      have ht : c ≠ 't' := by rcases hc with rfl | rfl <;> decide
      simpa [escaped, hc, stringRest, hn, ht] using hw
    · obtain ⟨w, hw⟩ := ih (c :: acc) (width + c.utf8Size)
      refine ⟨w, ?_⟩
      push Not at hc
      simpa [escaped, hc, stringRest] using hw

/-! ## One token -/

namespace HasTokens

variable {ts : List Token} {cs : List Char}

theorem name {name : String} (hname : isIdentifier name = true) (hcs : Closed cs)
    (h : HasTokens ts cs) : HasTokens (.ident name :: ts) (name.toList ++ cs) := by
  obtain ⟨-, c, rest, rfl, hc, hall⟩ := trim_name hname
  obtain ⟨htake, hdrop⟩ := split_of_stops hall hcs.name
  have hnext : next 0 c (rest ++ cs) = _ := next_name 0 hc
  rw [← List.cons_append, htake, hdrop] at hnext
  rw [String.toList_ofList, List.cons_append]
  exact cons _ (not_isBlank_of_isNameChar hc.isNameChar) hnext h

theorem number {n : Nat} (hn : n < 10 ^ 15) (hcs : Closed cs) (h : HasTokens ts cs) :
    HasTokens (.number (Float.ofNat n) :: ts) (Nat.toDigits 10 n ++ cs) := by
  obtain ⟨w, hw⟩ := number_of_closed hn hcs
  cases hdigits : Nat.toDigits 10 n with
  | nil => exact absurd hdigits Nat.toDigits_ne_nil
  | cons d ds =>
    have hd : d.isDigit = true :=
      Nat.isDigit_of_mem_toDigits (by decide) (by decide) (hdigits ▸ List.mem_cons_self)
    rw [hdigits] at hw
    have hnext : next 0 d (ds ++ cs) = .ok ⟨.number (Float.ofNat n), w, cs⟩ := by
      unfold next
      rw [if_pos hd]
      exact hw
    rw [List.cons_append]
    exact cons _ (not_isBlank_of_isNameChar (isNameChar_of_isDigit hd)) hnext h

theorem string (s : String) (h : HasTokens ts cs) :
    HasTokens (.str s :: ts) ((Token.str s).chars ++ cs) := by
  obtain ⟨w, hw⟩ := stringRest_escaped s.toList cs [] 1
  have hnext : next 0 '"' (s.toList.flatMap escaped ++ '"' :: cs) = .ok ⟨.str s, w, cs⟩ := by
    unfold next
    rw [if_neg (by decide), if_pos (by decide), hw]
    simp
  simpa [Token.chars] using cons '"' (by decide) hnext h

theorem root (r : Root) (hcs : Closed cs) (h : HasTokens ts cs) :
    HasTokens (.root r :: ts) ((Token.root r).chars ++ cs) := by
  have hword : ∀ c ∈ r.word.toList, isNameChar c = true := by
    have hname : isIdentifier r.word = true := by cases r <;> decide
    obtain ⟨-, c, rest, hr, -, hall⟩ := trim_name hname
    rwa [hr, String.toList_ofList]
  obtain ⟨htake, hdrop⟩ := split_of_stops hword hcs.name
  have hnext : ∃ w, next 0 '$' (r.word.toList ++ cs) = .ok ⟨.root r, w, cs⟩ := by
    unfold next
    rw [if_neg (by decide), if_neg (by decide), if_pos rfl, htake, hdrop]
    cases r with
    | vars => exact ⟨5, rfl⟩
    | resident => exact ⟨9, rfl⟩
  obtain ⟨w, hw⟩ := hnext
  exact cons '$' (by decide) hw h

end HasTokens

/-! ## Pieces -/

/-- Where nothing goes on with the last of these pieces, their tokens are read. -/
def Lexes (ps : List Piece) : Prop :=
  ∀ ts cs, Closed cs → HasTokens ts cs →
    HasTokens (ps.map Piece.token ++ ts) (ps.flatMap Piece.chars ++ cs)

/-- Pieces that can stand behind an operand. -/
structure Trailing (ps : List Piece) : Prop where
  lexes : Lexes ps
  closes : ∀ cs, Closed cs → Closed (ps.flatMap Piece.chars ++ cs)

/-- Pieces of an operand. -/
structure Legible (ps : List Piece) : Prop where
  lexes : Lexes ps
  /-- An equals sign would go on with a `!` in front. -/
  starts : ∀ cs, Stops (· = '=') (ps.flatMap Piece.chars ++ cs)

theorem lexes_nil : Lexes [] := fun _ _ _ h => h

theorem Lexes.append {ps qs : List Piece} (hp : Lexes ps) (hq : Trailing qs) :
    Lexes (ps ++ qs) := by
  intro ts cs hcs h
  simpa using hp _ _ (hq.closes cs hcs) (hq.lexes ts cs hcs h)

namespace Trailing

theorem nil : Trailing [] := ⟨lexes_nil, fun _ h => h⟩

theorem append {ps qs : List Piece} (hp : Trailing ps) (hq : Trailing qs) : Trailing (ps ++ qs) :=
  ⟨hp.lexes.append hq, fun cs hcs => by simpa using hp.closes _ (hq.closes cs hcs)⟩

theorem rparen : Trailing [plain .rparen] :=
  ⟨fun _ _ _ h => h.cons ')' (by decide) rfl,
    fun _ _ => .cons (by decide) (by decide) _⟩

theorem rbracket : Trailing [plain .rbracket] :=
  ⟨fun _ _ _ h => h.cons ']' (by decide) rfl,
    fun _ _ => .cons (by decide) (by decide) _⟩

theorem call {ps : List Piece} (h : Lexes ps) :
    Trailing (plain .lparen :: (ps ++ [plain .rparen])) := by
  refine ⟨fun ts cs hcs hts => ?_, fun _ _ => .cons (by decide) (by decide) _⟩
  exact (h.append rparen ts cs hcs hts).cons '(' (by decide) rfl

theorem index {ps : List Piece} (h : Lexes ps) :
    Trailing (plain .lbracket :: (ps ++ [plain .rbracket])) := by
  refine ⟨fun ts cs hcs hts => ?_, fun _ _ => .cons (by decide) (by decide) _⟩
  exact (h.append rbracket ts cs hcs hts).cons '[' (by decide) rfl

theorem access {name : String} (hname : isIdentifier name = true) :
    Trailing [plain .dot, plain (.ident name)] := by
  constructor
  · intro ts cs hcs hts
    have h := (hts.name hname hcs).cons '.' (by decide) rfl
    simpa [Piece.chars, plain, Token.chars] using h
  · intro cs _
    obtain ⟨-, c, rest, rfl, hc, -⟩ := trim_name hname
    simpa [Piece.chars, plain, Token.chars] using Closed.point hc (rest ++ cs)

/-- An operator between two operands has blanks around it. -/
theorem joint {t : Token} {ps : List Piece} (h : Lexes ps)
    (ht : ∀ cs, ∃ c rest w, t.chars ++ ' ' :: cs = c :: rest ∧ isBlank c = false ∧
      next 0 c rest = .ok ⟨t, w, ' ' :: cs⟩) : Trailing (joint t :: ps) := by
  constructor
  · intro ts cs hcs hts
    obtain ⟨c, rest, w, hsplit, hc, hnext⟩ := ht (ps.flatMap Piece.chars ++ cs)
    have hread := ((h ts cs hcs hts).blank (by decide : isBlank ' ' = true)).cons c hc hnext
    rw [← hsplit] at hread
    simpa [Piece.chars, Piece.joint] using hread.blank (by decide : isBlank ' ' = true)
  · exact fun _ _ => .cons (by decide) (by decide) _

theorem arith (op : ArithOp) {ps : List Piece} (h : Lexes ps) :
    Trailing (Piece.joint op.token :: ps) :=
  joint h fun _ => by cases op <;> exact ⟨_, _, _, rfl, by decide, rfl⟩

theorem relation (op : Relation) {ps : List Piece} (h : Lexes ps) :
    Trailing (Piece.joint op.token :: ps) :=
  joint h fun _ => by cases op <;> exact ⟨_, _, _, rfl, by decide, rfl⟩

theorem andAnd {ps : List Piece} (h : Lexes ps) : Trailing (Piece.joint .andAnd :: ps) :=
  joint h fun _ => ⟨_, _, _, rfl, by decide, rfl⟩

theorem orOr {ps : List Piece} (h : Lexes ps) : Trailing (Piece.joint .orOr :: ps) :=
  joint h fun _ => ⟨_, _, _, rfl, by decide, rfl⟩

end Trailing

theorem stops_name {c : Char} (hc : isNameChar c = true) (cs : List Char) :
    Stops (· = '=') (c :: cs) := by
  refine stops_cons (decide_eq_false ?_)
  rintro rfl
  exact absurd hc (by decide)

theorem next_bang {cs : List Char} (h : Stops (· = '=') cs) :
    next 0 '!' cs = .ok ⟨.bang, 1, cs⟩ := by
  cases cs with
  | nil => rfl
  | cons c cs =>
    have hc : c ≠ '=' := of_decide_eq_false (h c rfl)
    show Lexer.symbol 0 '!' (c :: cs) = _
    simp [Lexer.symbol, hc]

namespace Legible

theorem append {ps qs : List Piece} (hp : Legible ps) (hq : Trailing qs) : Legible (ps ++ qs) :=
  ⟨hp.lexes.append hq, fun cs => by simpa using hp.starts (qs.flatMap Piece.chars ++ cs)⟩

theorem enclosed (loose : Bool) {ps : List Piece} (h : Legible ps) :
    Legible (enclosed loose ps) := by
  cases loose with
  | false => exact h
  | true => exact ⟨(Trailing.call h.lexes).lexes, fun _ => stops_cons (by decide)⟩

theorem name {name : String} (hname : isIdentifier name = true) :
    Legible [plain (.ident name)] := by
  constructor
  · intro ts cs hcs hts
    simpa [Piece.chars, plain, Token.chars] using hts.name hname hcs
  · intro cs
    obtain ⟨-, c, rest, rfl, hc, -⟩ := trim_name hname
    rw [List.flatMap_singleton, Piece.chars]
    simpa [plain, Token.chars] using stops_name hc.isNameChar (rest ++ cs)

theorem literal {v : Value} (hv : Literal v) : Legible [plain (literalToken v)] := by
  cases hv with
  | undefined => exact name (by decide)
  | null => exact name (by decide)
  | bool b => cases b <;> exact name (by decide)
  | @number n hn =>
    have hchars : (Token.number (Float.ofNat n)).chars = Nat.toDigits 10 n := by
      rw [Token.chars, Value.formatNumber_of_integer? (Decimal.integer?_ofNat (by omega)) hn,
        Json.toList_ofNat]
    constructor
    · intro ts cs hcs hts
      simpa [Piece.chars, plain, literalToken, hchars] using hts.number hn hcs
    · intro cs
      cases hdigits : Nat.toDigits 10 n with
      | nil => exact absurd hdigits Nat.toDigits_ne_nil
      | cons d ds =>
        have hd : d.isDigit = true :=
          Nat.isDigit_of_mem_toDigits (by decide) (by decide) (hdigits ▸ List.mem_cons_self)
        simpa [Piece.chars, plain, literalToken, hchars, hdigits] using
          stops_name (isNameChar_of_isDigit hd) (ds ++ cs)
  | string s =>
    refine ⟨fun ts cs _ hts => ?_, fun _ => stops_cons (by decide)⟩
    simpa [Piece.chars, plain, literalToken] using hts.string s

theorem root (r : Root) : Legible [plain (.root r)] := by
  refine ⟨fun ts cs hcs hts => ?_, fun _ => stops_cons (by decide)⟩
  simpa [Piece.chars, plain] using hts.root r hcs

theorem neg {ps : List Piece} (h : Lexes ps) : Legible (plain .minus :: ps) := by
  refine ⟨fun ts cs hcs hts => ?_, fun _ => stops_cons (by decide)⟩
  exact (h ts cs hcs hts).cons '-' (by decide) rfl

theorem not {ps : List Piece} (h : Legible ps) : Legible (plain .bang :: ps) := by
  refine ⟨fun ts cs hcs hts => ?_, fun _ => stops_cons (by decide)⟩
  exact (h.lexes ts cs hcs hts).cons '!' (by decide)
    (next_bang (h.starts cs))

end Legible

theorem isIdentifier_method (op : TextOp) : isIdentifier op.method = true := by
  cases op <;> decide

/-- The pieces of terms behind the first one. -/
theorem trailing_morePieces (k : Nat) {separator : Token} {es : List Expr}
    (hseparator : ∀ ps, Lexes ps → Trailing (joint separator :: ps))
    (h : ∀ e ∈ es, Legible e.pieces) : Trailing (morePieces k separator es) := by
  induction es with
  | nil => exact .nil
  | cons e es ih =>
    obtain ⟨he, hes⟩ := List.forall_mem_cons.1 h
    rw [morePieces]
    exact (hseparator _ (he.enclosed _).lexes).append (ih hes)

/-- The pieces of an expression are told from each other in its text. -/
theorem legible_pieces {e : Expr} (he : Writable e) : Legible e.pieces := by
  induction he with
  | literal hv => exact .literal hv
  | var hname => exact (Legible.root .vars).append (.access hname)
  | resident => exact .root .resident
  | binding hname _ => exact .name hname
  | member _ hname _ ha => exact (ha.enclosed _).append (.access hname)
  | index _ _ ha hi => exact (ha.enclosed _).append (.index hi.lexes)
  | length _ ha => exact (ha.enclosed _).append (.access (by decide))
  | includes _ _ ha he =>
    exact (ha.enclosed _).append ((Trailing.access (by decide)).append (.call he.lexes))
  | text op _ ha =>
    exact (ha.enclosed _).append
      ((Trailing.access (isIdentifier_method op)).append (.call lexes_nil))
  | arith op _ _ ha hb => exact (ha.enclosed _).append (.arith op (hb.enclosed _).lexes)
  | neg _ ha => exact .neg (ha.enclosed _).lexes
  | relation op _ _ ha hb => exact (ha.enclosed _).append (.relation op (hb.enclosed _).lexes)
  | @all es hlen _ hes =>
    cases es with
    | nil => cases hlen
    | cons e es =>
      obtain ⟨he, hes⟩ := List.forall_mem_cons.1 hes
      rw [pieces]
      exact (he.enclosed _).append (trailing_morePieces 2 (fun _ => .andAnd) hes)
  | @any es hlen _ hes =>
    cases es with
    | nil => cases hlen
    | cons e es =>
      obtain ⟨he, hes⟩ := List.forall_mem_cons.1 hes
      rw [pieces]
      exact (he.enclosed _).append (trailing_morePieces 1 (fun _ => .orOr) hes)
  | not _ ha => exact .not (ha.enclosed _)

/-- The tokens of a text are those that were written. -/
theorem tokenize_source {e : Expr} (he : Writable e) :
    HasTokens (e.pieces.map Piece.token) e.source.toList := by
  have h := (legible_pieces he).lexes [] [] .nil .nil
  rw [source, String.toList_ofList]
  simpa using h

end Expr

end Archipelago
