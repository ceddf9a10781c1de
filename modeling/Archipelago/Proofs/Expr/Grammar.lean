import Archipelago.Proofs.Expr.Source

/-!
# The grammar

Every level of the grammar reads the operands of its operators at the next one. So the pieces of an
expression are read by the level that it is held together at, as long as nothing behind them goes
on with it: operators to the left of a chain are joined before the next one is read, and so are the
accesses to an operand. By induction on the expression its text is read as that expression.
-/

namespace Archipelago.Expr

open Piece (plain joint)

/-! ## Nesting -/

/-- Parentheses are a level of nesting. -/
def raised (loose : Bool) (depth : Nat) : Nat := if loose then depth + 1 else depth

mutual

/-- How deep the text of an expression nests. -/
def nesting : Expr → Nat
  | literal _ | var _ | resident | binding _ => 0
  | member a _ | length a | text _ a => raised (a.level < 7) (nesting a)
  | index a e | includes a e => max (raised (a.level < 7) (nesting a)) (nesting e + 1)
  | arith op a b =>
    max (raised (a.level < op.level) (nesting a)) (raised (b.level < op.level + 1) (nesting b))
  | relation op a b =>
    max (raised (a.level < op.level) (nesting a)) (raised (b.level < op.level + 1) (nesting b))
  | neg a | not a => raised (a.level < 6) (nesting a) + 1
  | all es => nestings 2 es
  | any es => nestings 1 es

/-- The deepest of terms that stand in places of level `k`. -/
def nestings (k : Nat) : List Expr → Nat
  | [] => 0
  | e :: es => max (raised (e.level < k) (nesting e)) (nestings k es)

end

/-! ## Levels -/

/-- The level at which a token goes on with what is in front of it. -/
def Token.level? : Token → Option Nat
  | orOr => some 0
  | andAnd => some 1
  | eqEq | notEq => some 2
  | lt | le | gt | ge => some 3
  | plus | minus => some 4
  | star | slash | percent => some 5
  | dot | lbracket => some 7
  | lparen => some 8
  | _ => none

/-- Levels go from the loosest operator to what needs no parentheses anywhere. -/
theorem level_le (e : Expr) : e.level ≤ 7 := by
  cases e with
  | arith op _ _ => cases op <;> simp [level, ArithOp.level]
  | relation op _ _ => cases op <;> simp [level, Relation.level]
  | _ => simp [level]

/-- The tokens of pieces, wherever they stand. -/
def placed (ps : List Piece) : Tokens := ps.map fun p => (0, p.token)

@[simp] theorem placed_nil : placed [] = [] := rfl

@[simp] theorem placed_cons (p : Piece) (ps : List Piece) :
    placed (p :: ps) = (0, p.token) :: placed ps := rfl

@[simp] theorem placed_append (ps qs : List Piece) :
    placed (ps ++ qs) = placed ps ++ placed qs := List.map_append

namespace Parser

/-- Nothing that a level can go on with stands in front. -/
def EndsAt (k : Nat) (rest : Tokens) : Prop := ∀ x ∈ rest.head?, ∀ l ∈ x.2.level?, l < k

/-- What ends an expression of a level ends one of any tighter level. -/
theorem EndsAt.mono {j k : Nat} {rest : Tokens} (h : EndsAt j rest) (hjk : j ≤ k) :
    EndsAt k rest := fun x hx l hl => Nat.lt_of_lt_of_le (h x hx l hl) hjk

theorem endsAt_nil (k : Nat) : EndsAt k [] := by simp [EndsAt]

theorem endsAt_cons {k : Nat} {t : Token} (ht : ∀ l ∈ t.level?, l < k) (o : Nat) (rest : Tokens) :
    EndsAt k ((o, t) :: rest) := by
  rintro x hx
  obtain rfl := Option.some.inj hx
  exact ht

theorem endsAt_of_level? {k : Nat} {t : Token} (ht : t.level? = some k) (o : Nat) (rest : Tokens) :
    EndsAt (k + 1) ((o, t) :: rest) := by
  refine endsAt_cons (fun l hl => ?_) o rest
  obtain rfl := Option.some.inj (ht.symm.trans hl)
  exact Nat.lt_succ_self k

/-- The operators of a level that joins two operands. -/
def operators : Nat → Token → Option (Expr → Expr → Expr)
  | 2 => equality?
  | 3 => comparison?
  | 4 => sum?
  | _ => product?

/-- The separator of the terms of a disjunction, or of a conjunction. -/
def separator : Nat → Token
  | 0 => .orOr
  | _ => .andAnd

/-- Is a token the one between the terms of this level? -/
def isSeparator : Nat → Token → Bool
  | 0 => (· matches .orOr)
  | _ => (· matches .andAnd)

/-- The expression that is made of the terms of this level. -/
def ofTerms : Nat → List Expr → Expr
  | 0 => any
  | _ => all

/-- What reads products, over the operands that `u` reads. -/
def product (u : Parser) : Parser := leftAssoc u product?

/-- What reads sums. -/
def sum (u : Parser) : Parser := leftAssoc (product u) sum?

/-- What reads comparisons of order. -/
def comparison (u : Parser) : Parser := leftAssoc (sum u) comparison?

/-- What reads comparisons for equality. -/
def equality (u : Parser) : Parser := leftAssoc (comparison u) equality?

/-- What reads terms with an `and` between them. -/
def conjunction (u : Parser) : Parser := joined (equality u) (· matches .andAnd) .all

/-- What reads an expression of a level, over the operands that `u` reads. -/
def atLevel (u : Parser) : Nat → Parser
  | 0 => disjunction u
  | 1 => conjunction u
  | 2 => equality u
  | 3 => comparison u
  | 4 => sum u
  | 5 => product u
  | _ => u

/-- Two operands are joined from equality down to products. -/
def IsBinary (k : Nat) : Prop := k = 2 ∨ k = 3 ∨ k = 4 ∨ k = 5

/-- A level of binary operators is read as a chain of operands of the next level. -/
theorem atLevel_of_isBinary (u : Parser) {k : Nat} (hk : IsBinary k) :
    atLevel u k = leftAssoc (atLevel u (k + 1)) (operators k) := by
  rcases hk with rfl | rfl | rfl | rfl <;> rfl

/-- Any number of terms are joined by disjunction and by conjunction. -/
def IsVariadic (k : Nat) : Prop := k = 0 ∨ k = 1

/-- A level of connectives is read as terms of the next level, with separators between them. -/
theorem atLevel_of_isVariadic (u : Parser) {k : Nat} (hk : IsVariadic k) :
    atLevel u k = joined (atLevel u (k + 1)) (isSeparator k) (ofTerms k) := by
  rcases hk with rfl | rfl <;> rfl

theorem isSeparator_separator (k : Nat) : isSeparator k (separator k) = true := by
  rcases k with _ | k <;> rfl

theorem level?_separator {k : Nat} (hk : IsVariadic k) : (separator k).level? = some k := by
  rcases hk with rfl | rfl <;> rfl

/-- What ends a term does not go on with another one. -/
theorem isSeparator_eq_false {k : Nat} (hk : IsVariadic k) {t : Token}
    (ht : ∀ l ∈ t.level?, l < k) : isSeparator k t = false := by
  rcases hk with rfl | rfl <;> cases t <;> simp [Token.level?] at ht <;> rfl

theorem isBinary_arith (op : ArithOp) : IsBinary op.level := by
  cases op <;> simp [ArithOp.level, IsBinary]

theorem isBinary_relation (op : Relation) : IsBinary op.level := by
  cases op <;> simp [Relation.level, IsBinary]

theorem level?_arith (op : ArithOp) : op.token.level? = some op.level := by cases op <;> rfl

theorem level?_relation (op : Relation) : op.token.level? = some op.level := by cases op <;> rfl

theorem operators_arith (op : ArithOp) : operators op.level op.token = some (arith op) := by
  cases op <;> rfl

theorem operators_relation (op : Relation) :
    operators op.level op.token = some (relation op) := by
  cases op <;> rfl

/-- What ends an operand does not go on with another one. -/
theorem operators_eq_none {k : Nat} (hk : IsBinary k) {t : Token} (ht : ∀ l ∈ t.level?, l < k) :
    operators k t = none := by
  rcases hk with rfl | rfl | rfl | rfl <;> cases t <;>
    simp [Token.level?] at ht <;> rfl

/-! ## Ends -/

section

variable {u : Parser} {toks rest : Tokens} {e : Expr}

/-- A chain is over where no operator follows. -/
theorem chain_of_none {operator? : Token → Option (Expr → Expr → Expr)}
    (h : ∀ x ∈ rest.head?, operator? x.2 = none) (fuel : Nat) (e : Expr) :
    chain u operator? fuel e rest = .ok (e, rest) := by
  rcases rest with _ | ⟨x, rest⟩
  · cases fuel <;> rfl
  · cases fuel with
    | zero => rfl
    | succ fuel => rw [chain, h x rfl]

theorem more_of_false {isSeparator : Token → Bool} (h : ∀ x ∈ rest.head?, isSeparator x.2 = false)
    (fuel : Nat) : more u isSeparator fuel rest = .ok ([], rest) := by
  rcases rest with _ | ⟨x, rest⟩
  · cases fuel <;> rfl
  · cases fuel with
    | zero => rfl
    | succ fuel =>
      rw [more, h x rfl]
      rfl

/-- A single term is not joined with anything. -/
theorem joined_of_false {isSeparator : Token → Bool} (join : List Expr → Expr)
    (hread : u toks = .ok (e, rest)) (h : ∀ x ∈ rest.head?, isSeparator x.2 = false) :
    joined u isSeparator join toks = .ok (e, rest) :=
  bind_eq_ok.2 ⟨_, hread, bind_eq_ok.2 ⟨_, more_of_false h _, rfl⟩⟩

end

/-! ## Reading at a level -/

/-- A level reads the pieces as this expression, and nothing behind them. -/
def Reads (u : Parser) (k : Nat) (ps : List Piece) (e : Expr) : Prop :=
  ∀ rest, EndsAt k rest → atLevel u k (placed ps ++ rest) = .ok (e, rest)

section

variable {u : Parser} {k : Nat} {ps qs : List Piece} {a b e : Expr}

/-- What a level reads is also read by the one that it is the operands of. -/
theorem Reads.loosen (h : Reads u (k + 1) ps e) (hk : k ≤ 5) : Reads u k ps e := by
  intro rest hrest
  have hread := h rest (hrest.mono (Nat.le_succ k))
  obtain hvariadic | hbinary : IsVariadic k ∨ IsBinary k := by
    unfold IsVariadic IsBinary
    omega
  · rw [atLevel_of_isVariadic u hvariadic]
    exact joined_of_false _ hread fun x hx => isSeparator_eq_false hvariadic (hrest x hx)
  · rw [atLevel_of_isBinary u hbinary]
    refine bind_eq_ok.2 ⟨_, hread, chain_of_none (fun x hx => ?_) _ _⟩
    exact operators_eq_none hbinary (hrest x hx)

/-- What reads an expression at a level reads it at any looser one, with nothing to add on the way.
-/
theorem Reads.mono {j : Nat} (h : Reads u k ps e) (hjk : j ≤ k) (hk : k ≤ 6) : Reads u j ps e := by
  induction hjk with
  | refl => exact h
  | step _ ih => exact ih (h.loosen (by omega)) (by omega)

/-- An expression is read up to what closes the place that it stands in. -/
theorem Reads.closed (h : Reads u 0 ps e) {t : Token} (ht : t.level? = none) (rest : Tokens) :
    disjunction u (placed (ps ++ [plain t]) ++ rest) = .ok (e, (0, t) :: rest) := by
  rw [placed_append, List.append_assoc]
  exact h _ (endsAt_cons (fun l hl => nomatch ht.symm.trans hl) _ _)

/-- A chain is read up to the expression, which stands to the left of what goes on with it. A round
takes one of the fuel but several tokens, so what goes on is known for all fuel that is enough. -/
def Leads (u : Parser) (k : Nat) (ps : List Piece) (e : Expr) : Prop :=
  ∀ rest r, EndsAt (k + 1) rest →
    (∀ fuel, rest.length ≤ fuel → chain (atLevel u (k + 1)) (operators k) fuel e rest = r) →
    atLevel u k (placed ps ++ rest) = r

/-- An operand of the next level is the start of a chain. -/
theorem Leads.of_reads (hk : IsBinary k) (h : Reads u (k + 1) ps e) : Leads u k ps e := by
  intro rest r hrest hr
  rw [atLevel_of_isBinary u hk]
  refine Eq.trans ?_ (hr rest.length (Nat.le_refl _))
  show (atLevel u (k + 1) (placed ps ++ rest) >>= _) = _
  rw [h rest hrest]
  rfl

/-- A chain that is not gone on with is an expression of its level. -/
theorem Leads.reads (hk : IsBinary k) (h : Leads u k ps e) : Reads u k ps e :=
  fun rest hrest => h rest _ (hrest.mono (Nat.le_succ k)) fun fuel _ =>
    chain_of_none (fun x hx => operators_eq_none hk (hrest x hx)) fuel e

/-- A further operand is joined to what is read already. -/
theorem Leads.join {t : Token} {join : Expr → Expr → Expr} (ha : Leads u k ps a)
    (hb : Reads u (k + 1) qs b) (ht : t.level? = some k) (hjoin : operators k t = some join) :
    Leads u k (ps ++ joint t :: qs) (join a b) := by
  intro rest r hrest hr
  rw [placed_append, placed_cons, List.append_assoc]
  refine ha _ r (endsAt_of_level? ht _ _) fun fuel hfuel => ?_
  simp only [List.cons_append, List.length_cons, List.length_append] at hfuel
  obtain ⟨fuel, rfl⟩ : ∃ n, fuel = n + 1 := Nat.exists_eq_add_of_le' (by omega)
  rw [List.cons_append, chain, show (joint t).token = t from rfl, hjoin]
  refine Eq.trans ?_ (hr fuel (by omega))
  show (atLevel u (k + 1) (placed qs ++ rest) >>= _) = _
  rw [hb rest hrest]
  rfl

/-- Terms behind the first one are read up to where no separator stands. -/
theorem more_terms (hk : IsVariadic k) {es : List Expr}
    (h : ∀ e ∈ es, Reads u (k + 1) (enclosed (e.level < k + 1) e.pieces) e) {rest : Tokens}
    (hrest : EndsAt k rest) {fuel : Nat}
    (hfuel : (placed (morePieces (k + 1) (separator k) es) ++ rest).length ≤ fuel) :
    more (atLevel u (k + 1)) (isSeparator k) fuel
      (placed (morePieces (k + 1) (separator k) es) ++ rest) = .ok (es, rest) := by
  induction es generalizing fuel with
  | nil => exact more_of_false (fun x hx => isSeparator_eq_false hk (hrest x hx)) fuel
  | cons e es ih =>
    obtain ⟨he, hes⟩ := List.forall_mem_cons.1 h
    have hends : EndsAt (k + 1) (placed (morePieces (k + 1) (separator k) es) ++ rest) := by
      cases es with
      | nil => exact hrest.mono (Nat.le_succ k)
      | cons e' es => exact endsAt_of_level? (level?_separator hk) _ _
    simp only [morePieces, placed_cons, placed_append, List.cons_append, List.append_assoc,
      List.length_cons, List.length_append] at hfuel ⊢
    obtain ⟨fuel, rfl⟩ : ∃ n, fuel = n + 1 := Nat.exists_eq_add_of_le' (by omega)
    rw [more, show (joint (separator k)).token = separator k from rfl, isSeparator_separator]
    refine bind_eq_ok.2 ⟨_, he _ hends, bind_eq_ok.2 ⟨_, ih hes ?_, rfl⟩⟩
    simp only [List.length_append]
    omega

/-- Terms with separators between them are read together. -/
theorem reads_terms (hk : IsVariadic k) {es : List Expr} (hlen : 1 ≤ es.length)
    (he : Reads u (k + 1) (enclosed (e.level < k + 1) e.pieces) e)
    (hes : ∀ e ∈ es, Reads u (k + 1) (enclosed (e.level < k + 1) e.pieces) e) :
    Reads u k (enclosed (e.level < k + 1) e.pieces ++ morePieces (k + 1) (separator k) es)
      (ofTerms k (e :: es)) := by
  intro rest hrest
  obtain ⟨e', es, rfl⟩ := List.exists_cons_of_length_pos hlen
  rw [atLevel_of_isVariadic u hk, placed_append, List.append_assoc]
  exact bind_eq_ok.2 ⟨_, he _ (endsAt_of_level? (level?_separator hk) _ _),
    bind_eq_ok.2 ⟨_, more_terms hk hes hrest (Nat.le_refl _), rfl⟩⟩

end

/-! ## Operands -/

theorem EndsAt.no_call {rest : Tokens} (h : EndsAt 8 rest) (o : Nat) (more : Tokens) :
    rest ≠ (o, .lparen) :: more := by
  rintro rfl
  exact absurd (h _ rfl 8 rfl) (Nat.lt_irrefl 8)

/-- An operand ends where no access follows. -/
theorem accesses_of_endsAt {rest : Tokens} (h : EndsAt 6 rest) (stop fuel : Nat) (p : Parser)
    (e : Expr) : accesses stop p fuel e rest = .ok (e, rest) := by
  rcases rest with _ | ⟨⟨o, t⟩, rest⟩
  · cases fuel <;> rfl
  · cases fuel with
    | zero => rfl
    | succ fuel =>
      have ht := h _ rfl
      cases t with
      | dot | lbracket | lparen => simp [Token.level?] at ht
      | _ => rfl

/-- Without a call behind it a name is that of a member, or of the length. -/
theorem method_of_endsAt {rest : Tokens} (h : EndsAt 8 rest) (stop : Nat) (p : Parser) (a : Expr)
    (name : String) : method stop p a name rest =
      .ok (if name = "length" then .length a else .member a name, rest) := by
  unfold method
  split
  · exact absurd rfl (h.no_call _ _)
  · rfl

variable (stop limit : Nat)

/-- What reads the operand of an operator in front of it. -/
def deeper : (room : Nat) → Parser
  | 0 => tooDeep limit
  | room + 1 => unary stop limit room

theorem unary_eq (room : Nat) :
    unary stop limit room = signed stop (deeper stop limit room) (expression stop limit room) := by
  cases room <;> rfl

theorem signed_eq_operand {t : Token} (hbang : t ≠ .bang) (hminus : t ≠ .minus) (p q : Parser)
    (o : Nat) (rest : Tokens) :
    signed stop p q ((o, t) :: rest) = operand stop q ((o, t) :: rest) := by
  cases t with
  | bang => exact absurd rfl hbang
  | minus => exact absurd rfl hminus
  | _ => rfl

/-- An operand is read up to the expression, which accesses may be behind. -/
def Heads (room : Nat) (ps : List Piece) (e : Expr) : Prop :=
  ∀ rest r, EndsAt 8 rest →
    (∀ fuel, rest.length ≤ fuel → accesses stop (expression stop limit room) fuel e rest = r) →
    unary stop limit room (placed ps ++ rest) = r

namespace Heads

variable {stop limit} {room : Nat} {ps qs : List Piece} {a b e : Expr}

/-- What starts an operand, and no operator, can be gone on with. -/
theorem of_primary {t : Token} (hbang : t ≠ .bang) (hminus : t ≠ .minus)
    (h : ∀ rest, EndsAt 8 rest → primary stop (expression stop limit room)
      (placed (plain t :: ps) ++ rest) = .ok (e, rest)) :
    Heads stop limit room (plain t :: ps) e := by
  intro rest r hrest hr
  rw [unary_eq, placed_cons, List.cons_append, show (plain t).token = t from rfl,
    signed_eq_operand stop hbang hminus]
  refine Eq.trans ?_ (hr rest.length (Nat.le_refl _))
  show (primary stop _ (placed (plain t :: ps) ++ rest) >>= _) = _
  rw [h rest hrest]
  rfl

theorem word (name : String) : Heads stop limit room [plain (.ident name)] (ofWord name) :=
  of_primary (by simp) (by simp) fun _ h => word_eq_of_no_call h.no_call name

theorem literal {v : Value} (hv : Literal v) :
    Heads stop limit room [plain (literalToken v)] (.literal v) := by
  cases hv with
  | undefined => exact word "undefined"
  | null => exact word "null"
  | bool b =>
    cases b with
    | false => exact word "false"
    | true => exact word "true"
  | number _ => exact of_primary (by simp [literalToken]) (by simp [literalToken]) fun _ _ => rfl
  | string s => exact of_primary (by simp [literalToken]) (by simp [literalToken]) fun _ _ => rfl

theorem var (name : String) :
    Heads stop limit room [plain (.root .vars), plain .dot, plain (.ident name)] (.var name) :=
  of_primary (by simp) (by simp) fun _ _ => rfl

theorem resident : Heads stop limit room [plain (.root .resident)] .resident :=
  of_primary (by simp) (by simp) fun _ _ => rfl

/-- Parentheses take one level of nesting. -/
theorem lparen (h : Reads (unary stop limit room) 0 ps e) :
    Heads stop limit (room + 1) (plain .lparen :: (ps ++ [plain .rparen])) e := by
  refine of_primary (by simp) (by simp) fun rest _ => ?_
  exact bind_eq_ok.2 ⟨_, h.closed (t := .rparen) rfl rest, rfl⟩

/-- A member behind an operand that can be gone on with. -/
theorem access (h : Heads stop limit room ps a) {name : String}
    (hmethod : ∀ rest, EndsAt 8 rest →
      method stop (expression stop limit room) a name (placed qs ++ rest) = .ok (b, rest)) :
    Heads stop limit room (ps ++ plain .dot :: plain (.ident name) :: qs) b := by
  intro rest r hrest hr
  rw [placed_append, List.append_assoc]
  refine h _ r (endsAt_of_level? (k := 7) rfl _ _) fun fuel hfuel => ?_
  simp only [placed_cons, List.cons_append, List.length_cons, List.length_append] at hfuel
  obtain ⟨fuel, rfl⟩ : ∃ n, fuel = n + 1 := Nat.exists_eq_add_of_le' (by omega)
  refine Eq.trans ?_ (hr fuel (by omega))
  show (method stop _ a name (placed qs ++ rest) >>= _) = _
  rw [hmethod rest hrest]
  rfl

theorem member (h : Heads stop limit room ps a) {name : String} (hname : name ≠ "length") :
    Heads stop limit room (ps ++ [plain .dot, plain (.ident name)]) (.member a name) :=
  h.access fun rest hrest => by simpa [hname] using method_of_endsAt hrest stop _ a name

theorem length (h : Heads stop limit room ps a) :
    Heads stop limit room (ps ++ [plain .dot, plain (.ident "length")]) (.length a) :=
  h.access fun rest hrest => by simpa using method_of_endsAt hrest stop _ a "length"

theorem text (op : TextOp) (h : Heads stop limit room ps a) :
    Heads stop limit room
      (ps ++ [plain .dot, plain (.ident op.method), plain .lparen, plain .rparen]) (.text op a) :=
  h.access fun _ _ => by cases op <;> rfl

/-- An argument in parentheses has one level of nesting less to use. -/
theorem includes (h : Heads stop limit (room + 1) ps a)
    (he : Reads (unary stop limit room) 0 qs e) :
    Heads stop limit (room + 1) (ps ++ plain .dot :: plain (.ident "includes") ::
      plain .lparen :: (qs ++ [plain .rparen])) (.includes a e) := by
  refine h.access fun rest _ => ?_
  exact bind_eq_ok.2 ⟨_, he.closed (t := .rparen) rfl rest, rfl⟩

/-- An index in brackets has one level of nesting less to use. -/
theorem index (h : Heads stop limit (room + 1) ps a)
    (he : Reads (unary stop limit room) 0 qs e) :
    Heads stop limit (room + 1) (ps ++ plain .lbracket :: (qs ++ [plain .rbracket]))
      (.index a e) := by
  intro rest r hrest hr
  rw [placed_append, List.append_assoc]
  refine h _ r (endsAt_of_level? (k := 7) rfl _ _) fun fuel hfuel => ?_
  simp only [placed_cons, List.cons_append, List.length_cons, List.length_append] at hfuel
  obtain ⟨fuel, rfl⟩ : ∃ n, fuel = n + 1 := Nat.exists_eq_add_of_le' (by omega)
  refine Eq.trans ?_ (hr fuel (by omega))
  show (disjunction (unary stop limit room) (placed (qs ++ [plain .rbracket]) ++ rest) >>= _) = _
  rw [he.closed rfl]
  rfl

/-- What can be gone on with is an expression of the tightest level. -/
theorem reads (h : Heads stop limit room ps e) : Reads (unary stop limit room) 6 ps e :=
  fun rest hrest => h rest _ (hrest.mono (by decide)) fun fuel _ =>
    accesses_of_endsAt hrest stop fuel _ e

end Heads

/-! ## Places -/

/-- An expression is read by itself as its level requires. -/
structure Own (room : Nat) (e : Expr) : Prop where
  reads : Reads (unary stop limit room) (min e.level 6) e.pieces e
  leads : IsBinary e.level → Leads (unary stop limit room) e.level e.pieces e
  heads : e.level = 7 → Heads stop limit room e.pieces e

variable {stop limit} {room k : Nat} {e a b : Expr}

theorem Heads.own (h : Heads stop limit room e.pieces e) (he : e.level = 7) :
    Own stop limit room e where
  reads := by
    rw [he]
    exact h.reads
  leads hk := by
    rw [he] at hk
    simp [IsBinary] at hk
  heads _ := h

theorem Leads.own (h : Leads (unary stop limit room) e.level e.pieces e) (he : IsBinary e.level) :
    Own stop limit room e where
  reads := by
    have hmin : min e.level 6 = e.level := by
      rcases he with h | h | h | h <;> rw [h] <;> rfl
    rw [hmin]
    exact h.reads he
  leads _ := h
  heads h7 := by
    rw [h7] at he
    simp [IsBinary] at he

theorem Reads.own (h : Reads (unary stop limit room) k e.pieces e) (he : e.level = k)
    (hk : IsVariadic k ∨ k = 6) : Own stop limit room e where
  reads := by
    have hmin : min e.level 6 = k := by
      rcases hk with (rfl | rfl) | rfl <;> rw [he] <;> rfl
    rw [hmin]
    exact h
  leads hbinary := by
    rw [he] at hbinary
    rcases hk with (rfl | rfl) | rfl <;> simp [IsBinary] at hbinary
  heads h7 := by
    rcases hk with (rfl | rfl) | rfl <;> simp [he] at h7

/-- Where there is room for an expression it is read by itself. -/
def Fits (stop limit : Nat) (e : Expr) : Prop :=
  ∀ room, e.nesting ≤ room → Own stop limit room e

section

variable (he : Fits stop limit e) (hroom : raised (e.level < k) e.nesting ≤ room)
include he hroom

/-- Parentheses make an operand of anything, at the price of one level of nesting. -/
theorem Fits.heads_of_loose (hk : e.level < k) :
    Heads stop limit room (enclosed (e.level < k) e.pieces) e := by
  simp only [raised, enclosed, hk, decide_true, if_true] at hroom ⊢
  obtain ⟨room, rfl⟩ : ∃ n, room = n + 1 := Nat.exists_eq_add_of_le' (by omega)
  exact .lparen ((he room (by omega)).reads.mono (Nat.zero_le _) (Nat.min_le_right _ _))

theorem Fits.own (hk : ¬e.level < k) : Own stop limit room e :=
  he room (by simpa [raised, hk] using hroom)

/-- An operand is read at its place, with parentheses or without them. -/
theorem Fits.reads (hk : k ≤ 6) :
    Reads (unary stop limit room) k (enclosed (e.level < k) e.pieces) e := by
  by_cases hloose : e.level < k
  · exact (he.heads_of_loose hroom hloose).reads.mono hk (Nat.le_refl 6)
  · have h := (he.own hroom hloose).reads.mono (j := k) (by omega) (Nat.min_le_right _ _)
    simpa [enclosed, hloose] using h

theorem Fits.leads (hk : IsBinary k) :
    Leads (unary stop limit room) k (enclosed (e.level < k) e.pieces) e := by
  have hsmall : k + 1 ≤ 6 := by
    unfold IsBinary at hk
    omega
  by_cases hloose : e.level < k
  · exact .of_reads hk ((he.heads_of_loose hroom hloose).reads.mono hsmall (Nat.le_refl 6))
  · have hown := he.own hroom hloose
    simp only [enclosed, hloose, decide_false, if_neg Bool.false_ne_true]
    rcases Nat.eq_or_lt_of_not_lt hloose with rfl | hlt
    · exact hown.leads hk
    · exact .of_reads hk (hown.reads.mono (by omega) (Nat.min_le_right _ _))

end

/-- What stands in front of an access is read as such. -/
theorem Fits.heads (he : Fits stop limit e) (hroom : raised (e.level < 7) e.nesting ≤ room) :
    Heads stop limit room (enclosed (e.level < 7) e.pieces) e := by
  by_cases hloose : e.level < 7
  · exact he.heads_of_loose hroom hloose
  · have hlevel : e.level = 7 := Nat.le_antisymm e.level_le (Nat.not_lt.1 hloose)
    simpa [enclosed, hloose] using (he.own hroom hloose).heads hlevel

/-- An operator in front of what it applies to takes one level of nesting. -/
theorem Fits.unary (he : Fits stop limit e) (hroom : raised (e.level < 6) e.nesting + 1 ≤ room)
    {t : Token} {f : Expr → Expr}
    (hsigned : ∀ p q rest a rest', p rest = .ok (a, rest') →
      signed stop p q ((0, t) :: rest) = .ok (f a, rest')) :
    Reads (unary stop limit room) 6 (plain t :: enclosed (e.level < 6) e.pieces) (f e) := by
  intro rest hrest
  obtain ⟨room, rfl⟩ : ∃ n, room = n + 1 := Nat.exists_eq_add_of_le' (by omega)
  have hread := he.reads (Nat.le_of_succ_le_succ hroom) (Nat.le_refl 6) rest hrest
  show Parser.unary stop limit (room + 1) _ = _
  rw [unary_eq, placed_cons, List.cons_append]
  exact hsigned _ _ _ _ _ hread

/-- An expression with a binary operator is read if its operands are. -/
theorem Fits.binary (ha : Fits stop limit a) (hb : Fits stop limit b) (hk : IsBinary k)
    (hroom : max (raised (a.level < k) a.nesting) (raised (b.level < k + 1) b.nesting) ≤ room)
    {t : Token} {join : Expr → Expr → Expr} (ht : t.level? = some k)
    (hjoin : operators k t = some join) :
    Leads (Parser.unary stop limit room) k
      (enclosed (a.level < k) a.pieces ++ joint t :: enclosed (b.level < k + 1) b.pieces)
      (join a b) := by
  obtain ⟨hleft, hright⟩ := max_le_iff.1 hroom
  have hsmall : k + 1 ≤ 6 := by
    unfold IsBinary at hk
    omega
  exact (ha.leads hleft hk).join (hb.reads hright hsmall) ht hjoin

theorem raised_le_nestings {es : List Expr} (h : e ∈ es) (k : Nat) :
    raised (e.level < k) e.nesting ≤ nestings k es := by
  induction h with
  | head => exact le_max_left _ _
  | tail _ _ ih => exact ih.trans (le_max_right _ _)

/-- An expression with connectives is read if its terms are. -/
theorem Fits.terms (hk : IsVariadic k) {es : List Expr} (hlen : 2 ≤ es.length)
    (hes : ∀ e ∈ es, Fits stop limit e) : Fits stop limit (ofTerms k es) := by
  intro room hroom
  have hnesting : (ofTerms k es).nesting = nestings (k + 1) es := by
    rcases hk with rfl | rfl
    · show (any es).nesting = _
      rw [nesting]
    · show (all es).nesting = _
      rw [nesting]
  have hlevel : (ofTerms k es).level = k := by rcases hk with rfl | rfl <;> rfl
  have hreads : ∀ e ∈ es,
      Reads (Parser.unary stop limit room) (k + 1) (enclosed (e.level < k + 1) e.pieces) e := by
    intro e he
    refine (hes e he).reads ((raised_le_nestings he (k + 1)).trans (hnesting ▸ hroom)) ?_
    unfold IsVariadic at hk
    omega
  cases es with
  | nil => cases hlen
  | cons e es =>
    have hpieces : (ofTerms k (e :: es)).pieces =
        enclosed (e.level < k + 1) e.pieces ++ morePieces (k + 1) (separator k) es := by
      rcases hk with rfl | rfl
      · show (any (e :: es)).pieces = _
        rw [pieces]
        rfl
      · show (all (e :: es)).pieces = _
        rw [pieces]
        rfl
    obtain ⟨he, hes⟩ := List.forall_mem_cons.1 hreads
    refine Reads.own (k := k) ?_ hlevel (.inl hk)
    rw [hpieces]
    exact reads_terms hk (Nat.le_of_succ_le_succ hlen) he hes

/-- The pieces of an expression are read as it, wherever there is room for them. -/
theorem fits_of_writable (he : Writable e) : Fits stop limit e := by
  induction he with
  | literal hv => exact fun _ _ => (Heads.literal hv).own rfl
  | @var name _ => exact fun _ _ => (Heads.var name).own rfl
  | resident => exact fun _ _ => Heads.resident.own rfl
  | @binding name _ hword =>
    exact fun _ _ => (ofWord_of_none hword ▸ Heads.word name :).own rfl
  | member _ _ hlength ha =>
    intro room hroom
    rw [nesting] at hroom
    exact ((ha.heads hroom).member hlength).own rfl
  | index _ _ ha hi =>
    intro room hroom
    rw [nesting, max_le_iff] at hroom
    obtain ⟨room, rfl⟩ : ∃ n, room = n + 1 := Nat.exists_eq_add_of_le' (by omega)
    have hposition := (hi room (by omega)).reads.mono (Nat.zero_le _) (Nat.min_le_right _ _)
    exact ((ha.heads hroom.1).index hposition).own rfl
  | length _ ha =>
    intro room hroom
    rw [nesting] at hroom
    exact (ha.heads hroom).length.own rfl
  | includes _ _ ha he =>
    intro room hroom
    rw [nesting, max_le_iff] at hroom
    obtain ⟨room, rfl⟩ : ∃ n, room = n + 1 := Nat.exists_eq_add_of_le' (by omega)
    have harg := (he room (by omega)).reads.mono (Nat.zero_le _) (Nat.min_le_right _ _)
    exact ((ha.heads hroom.1).includes harg).own rfl
  | text op _ ha =>
    intro room hroom
    rw [nesting] at hroom
    exact ((ha.heads hroom).text op).own rfl
  | arith op _ _ ha hb =>
    intro room hroom
    rw [nesting] at hroom
    exact Leads.own (ha.binary hb (isBinary_arith op) hroom (level?_arith op) (operators_arith op))
      (isBinary_arith op)
  | neg _ ha =>
    intro room hroom
    rw [nesting] at hroom
    refine Reads.own (ha.unary hroom fun p q rest a rest' h => ?_) rfl (.inr rfl)
    exact bind_eq_ok.2 ⟨_, h, rfl⟩
  | relation op _ _ ha hb =>
    intro room hroom
    rw [nesting] at hroom
    exact Leads.own (ha.binary hb (isBinary_relation op) hroom (level?_relation op)
      (operators_relation op)) (isBinary_relation op)
  | all hlen _ hes => exact Fits.terms (k := 1) (.inr rfl) hlen hes
  | any hlen _ hes => exact Fits.terms (k := 0) (.inl rfl) hlen hes
  | not _ ha =>
    intro room hroom
    rw [nesting] at hroom
    refine Reads.own (ha.unary hroom fun p q rest a rest' h => ?_) rfl (.inr rfl)
    exact bind_eq_ok.2 ⟨_, h, rfl⟩

end Parser

/-! ## Whole texts -/

/-- A text with the tokens of an expression, however it is laid out, is read as that expression. -/
theorem parse_of_tokens {limits : EvalLimits} {src : String} {e : Expr} (he : Writable e)
    (htokens : HasTokens (e.pieces.map Piece.token) src.toList)
    (hlength : src.utf8ByteSize ≤ limits.maxExpressionLength)
    (hnesting : e.nesting < limits.maxNesting) : parse limits src = .ok e := by
  obtain ⟨toks, htoks, hsame⟩ := htokens
  refine parse_eq_ok.2 ⟨hlength, toks, htoks, parseTokens_eq_ok.2 ?_⟩
  obtain ⟨room, hroom⟩ : ∃ n, limits.maxNesting = n + 1 := Nat.exists_eq_add_of_le' (by omega)
  have hread : Parser.expression src.utf8ByteSize limits.maxNesting limits.maxNesting
      (placed e.pieces) = .ok (e, []) := by
    have hfits : Parser.Fits src.utf8ByteSize limits.maxNesting e := Parser.fits_of_writable he
    have h := (hfits room (by omega)).reads.mono (Nat.zero_le _) (Nat.min_le_right _ _) []
      (Parser.endsAt_nil 0)
    rw [List.append_nil] at h
    rw [hroom] at h ⊢
    exact h
  have halike : Parser.Alike (placed e.pieces) toks := by
    simp [Parser.Alike, placed, hsame, Function.comp_def]
  obtain ⟨_, rest, hread', rfl, hrest⟩ :=
    Parser.expression_simulates _ _ _ _ (Nat.le_refl _) _ _ halike _ _ hread
  obtain rfl := hrest.nil_left
  exact hread'

/-- The text of an expression is read as that expression, within limits that leave room for it. -/
theorem parse_source {limits : EvalLimits} {e : Expr} (he : Writable e)
    (hlength : e.source.utf8ByteSize ≤ limits.maxExpressionLength)
    (hnesting : e.nesting < limits.maxNesting) : parse limits e.source = .ok e :=
  parse_of_tokens he (tokenize_source he) hlength hnesting

/-- Operators on both sides of a parenthesis, a string with a quote, and a chain of accesses. -/
theorem parse_source_mixed :
    parse ⟨100, 4⟩ "!(1 - ($vars.a - b) == 7 || $resident[\"a\\\"b\"].name.includes(c.length))" =
      .ok (not (any [
        relation .eq (arith .sub (literal (.number (Float.ofNat 1)))
          (arith .sub (var "a") (binding "b"))) (literal (.number (Float.ofNat 7))),
        includes (member (index resident (literal (.string "a\"b"))) "name")
          (length (binding "c"))])) := by
  have hequal : Writable (relation .eq (arith .sub (literal (.number (Float.ofNat 1)))
      (arith .sub (var "a") (binding "b"))) (literal (.number (Float.ofNat 7)))) :=
    .relation _ (.arith _ (.literal (.number (by decide)))
      (.arith _ (.var (by decide)) (.binding (by decide) (by decide))))
      (.literal (.number (by decide)))
  have hincludes : Writable (includes (member (index resident (literal (.string "a\"b"))) "name")
      (length (binding "c"))) :=
    .includes (.member (.index .resident (.literal (.string _))) (by decide) (by decide))
      (.length (.binding (by decide) (by decide)))
  refine (congrArg (parse _) ?_).trans (parse_source (.not (.any (Nat.le_refl 2)
    (List.forall_mem_cons.2 ⟨hequal, List.forall_mem_cons.2 ⟨hincludes, by simp⟩⟩))) ?_ ?_)
  · decide +kernel
  · decide +kernel
  · decide +kernel

end Archipelago.Expr
