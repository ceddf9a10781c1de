import Archipelago.Expr.Parser
import Archipelago.Proofs.Basics
import Archipelago.Proofs.Expr.References

/-!
# One parser follows another

Where a token stands counts only for errors, and more room to nest only lets more be read. Both are
cases of one parser following another: it reads the same from the same tokens. The reading of a
path as one below the variables follows the reading of it for itself as well, up to the word that
both start with. So each combinator is looked at once, for any relation between the expressions
read that its joins keep.
-/

namespace Archipelago.Expr.Parser

/-- The same tokens, wherever they stand. -/
def Alike (toks toks' : Tokens) : Prop := toks.map (·.2) = toks'.map (·.2)

namespace Alike

theorem refl (toks : Tokens) : Alike toks toks := rfl

theorem symm {toks toks' : Tokens} (h : Alike toks toks') : Alike toks' toks := Eq.symm h

theorem length {toks toks' : Tokens} (h : Alike toks toks') : toks.length = toks'.length := by
  simpa using congrArg List.length h

theorem nil_left {toks : Tokens} (h : Alike [] toks) : toks = [] := by
  simpa [Alike] using h

theorem cons_left {o : Nat} {t : Token} {rest toks : Tokens} (h : Alike ((o, t) :: rest) toks) :
    ∃ o' rest', toks = (o', t) :: rest' ∧ Alike rest rest' := by
  cases toks with
  | nil => simp [Alike] at h
  | cons x rest' =>
    obtain ⟨o', t'⟩ := x
    obtain ⟨rfl, hrest⟩ : t = t' ∧ rest.map (·.2) = rest'.map (·.2) := by simpa [Alike] using h
    exact ⟨o', rest', rfl, hrest⟩

end Alike

/-- What `p` reads, `q` reads from tokens that stand in this relation, up to a relation between the
expressions; the rest is the same. -/
def Follows (T : Tokens → Tokens → Prop) (R : Expr → Expr → Prop) (p q : Parser) : Prop :=
  ∀ toks toks', T toks toks' → ∀ e rest, p toks = .ok (e, rest) →
    ∃ e' rest', q toks' = .ok (e', rest') ∧ R e e' ∧ Alike rest rest'

/-- From the same tokens the same is read. -/
abbrev Simulates (p q : Parser) : Prop := Follows Alike Eq p q

/-- The joins of an operand with what is behind it keep the relation. -/
structure LeftClosed (R : Expr → Expr → Prop) : Prop where
  member : ∀ {a b} name, R a b → R (member a name) (member b name)
  index : ∀ {a b} i, R a b → R (index a i) (index b i)
  length : ∀ {a b}, R a b → R (length a) (length b)
  includes : ∀ {a b} e, R a b → R (includes a e) (includes b e)
  text : ∀ {a b} op, R a b → R (text op a) (text op b)
  arith : ∀ {a b} op e, R a b → R (arith op a e) (arith op b e)
  relation : ∀ {a b} op e, R a b → R (relation op a e) (relation op b e)
  all : ∀ {a b} es, R a b → R (all (a :: es)) (all (b :: es))
  any : ∀ {a b} es, R a b → R (any (a :: es)) (any (b :: es))

theorem leftClosed_eq : LeftClosed Eq := by
  constructor
  all_goals
    intros
    subst_vars
    rfl

/-- Another root is all that changes to the left of an operator. -/
theorem leftClosed_rerooted (root : String) : LeftClosed (Rerooted root) where
  member name h := .member name h
  index i h := .index i h
  length h := .length h
  includes e h := .includes e h
  text op h := .text op h
  arith op e h := .arith op e h
  relation op e h := .relation op e h
  all es h := .all es h
  any es h := .any es h

/-- The same from the other side. -/
theorem LeftClosed.flip {R : Expr → Expr → Prop} (h : LeftClosed R) :
    LeftClosed fun a b => R b a where
  member name := h.member name
  index i := h.index i
  length := h.length
  includes e := h.includes e
  text op := h.text op
  arith op e := h.arith op e
  relation op e := h.relation op e
  all es := h.all es
  any es := h.any es

/-! ## Operators -/

section Operators

variable {T : Tokens → Tokens → Prop} {R : Expr → Expr → Prop} {operand operand' : Parser}

/-- A join of two operands keeps the relation. -/
def JoinsKeep (R : Expr → Expr → Prop) (operator? : Token → Option (Expr → Expr → Expr)) : Prop :=
  ∀ t join, operator? t = some join → ∀ a b e, R a b → R (join a e) (join b e)

/-- A chain goes on in the same way from related operands. -/
theorem chain_follows {operator? : Token → Option (Expr → Expr → Expr)}
    (hjoin : JoinsKeep R operator?) (h : Simulates operand operand') (fuel : Nat)
    {left left' : Expr} (hleft : R left left') :
    Follows Alike R (chain operand operator? fuel left) (chain operand' operator? fuel left') := by
  induction fuel generalizing left left' with
  | zero =>
    intro toks toks' ht e rest hp
    obtain ⟨rfl, rfl⟩ := Prod.mk.inj (Except.ok.inj hp)
    exact ⟨left', toks', rfl, hleft, ht⟩
  | succ fuel ih =>
    intro toks toks' ht e rest hp
    cases toks with
    | nil =>
      obtain rfl := ht.nil_left
      obtain ⟨rfl, rfl⟩ := Prod.mk.inj (Except.ok.inj hp)
      exact ⟨left', [], rfl, hleft, .refl _⟩
    | cons x toks =>
      obtain ⟨o, t⟩ := x
      obtain ⟨o', toks₁, rfl, ht₁⟩ := ht.cons_left
      unfold chain at hp ⊢
      cases hop : operator? t with
      | none =>
        simp only [hop] at hp ⊢
        obtain ⟨rfl, rfl⟩ := Prod.mk.inj (Except.ok.inj hp)
        exact ⟨left', _, rfl, hleft, ht⟩
      | some join =>
        simp only [hop] at hp ⊢
        obtain ⟨⟨right, rest₁⟩, hright, hp⟩ := bind_eq_ok.1 hp
        obtain ⟨_, rest₁', hright', rfl, hrest⟩ := h _ _ ht₁ _ _ hright
        obtain ⟨e', rest', hp', hR, hrest⟩ := ih (hjoin t join hop _ _ right hleft) _ _ hrest _ _ hp
        exact ⟨e', rest', bind_eq_ok.2 ⟨_, hright', hp'⟩, hR, hrest⟩

/-- A level of operators follows if its first operand does and the others are the same. -/
theorem leftAssoc_follows {operator? : Token → Option (Expr → Expr → Expr)}
    (hjoin : JoinsKeep R operator?) (hfirst : Follows T R operand operand')
    (h : Simulates operand operand') :
    Follows T R (leftAssoc operand operator?) (leftAssoc operand' operator?) := by
  intro toks toks' ht e rest hp
  obtain ⟨⟨first, rest₁⟩, hf, hp⟩ := bind_eq_ok.1 hp
  obtain ⟨first', rest₁', hf', hR, hrest⟩ := hfirst _ _ ht _ _ hf
  obtain ⟨e', rest', hp', hR', hrest'⟩ :=
    chain_follows hjoin h rest₁.length hR _ _ hrest _ _ hp
  rw [hrest.length] at hp'
  exact ⟨e', rest', bind_eq_ok.2 ⟨_, hf', hp'⟩, hR', hrest'⟩

theorem more_follows {isSeparator : Token → Bool} (h : Simulates operand operand') (fuel : Nat) :
    ∀ toks toks', Alike toks toks' → ∀ es rest,
      more operand isSeparator fuel toks = .ok (es, rest) →
      ∃ rest', more operand' isSeparator fuel toks' = .ok (es, rest') ∧ Alike rest rest' := by
  induction fuel with
  | zero =>
    intro toks toks' ht es rest hp
    obtain ⟨rfl, rfl⟩ := Prod.mk.inj (Except.ok.inj hp)
    exact ⟨toks', rfl, ht⟩
  | succ fuel ih =>
    intro toks toks' ht es rest hp
    cases toks with
    | nil =>
      obtain rfl := ht.nil_left
      obtain ⟨rfl, rfl⟩ := Prod.mk.inj (Except.ok.inj hp)
      exact ⟨[], rfl, .refl _⟩
    | cons x toks =>
      obtain ⟨o, t⟩ := x
      obtain ⟨o', toks₁, rfl, ht₁⟩ := ht.cons_left
      unfold more at hp ⊢
      by_cases hs : isSeparator t = true
      · rw [if_pos hs] at hp ⊢
        obtain ⟨⟨e, rest₁⟩, he, hp⟩ := bind_eq_ok.1 hp
        obtain ⟨⟨es', rest₂⟩, hes, hp⟩ := bind_eq_ok.1 hp
        obtain ⟨rfl, rfl⟩ := Prod.mk.inj (Except.ok.inj hp)
        obtain ⟨_, rest₁', he', rfl, hrest₁⟩ := h _ _ ht₁ _ _ he
        obtain ⟨rest₂', hes', hrest₂⟩ := ih _ _ hrest₁ _ _ hes
        exact ⟨rest₂', bind_eq_ok.2 ⟨_, he', bind_eq_ok.2 ⟨_, hes', rfl⟩⟩, hrest₂⟩
      · rw [if_neg hs] at hp ⊢
        obtain ⟨rfl, rfl⟩ := Prod.mk.inj (Except.ok.inj hp)
        exact ⟨_, rfl, ht⟩

/-- A level of connectives follows if its first term does and the others are the same. -/
theorem joined_follows {isSeparator : Token → Bool} {join : List Expr → Expr}
    (hjoin : ∀ a b es, R a b → R (join (a :: es)) (join (b :: es)))
    (hfirst : Follows T R operand operand') (h : Simulates operand operand') :
    Follows T R (joined operand isSeparator join) (joined operand' isSeparator join) := by
  intro toks toks' ht e rest hp
  obtain ⟨⟨first, rest₁⟩, hf, hp⟩ := bind_eq_ok.1 hp
  obtain ⟨⟨es, rest₂⟩, hes, hp⟩ := bind_eq_ok.1 hp
  obtain ⟨rfl, rfl⟩ := Prod.mk.inj (Except.ok.inj hp)
  obtain ⟨first', rest₁', hf', hR, hrest₁⟩ := hfirst _ _ ht _ _ hf
  obtain ⟨rest₂', hes', hrest₂⟩ := more_follows h rest₁.length _ _ hrest₁ _ _ hes
  rw [hrest₁.length] at hes'
  refine ⟨_, rest₂', bind_eq_ok.2 ⟨_, hf', bind_eq_ok.2 ⟨_, hes', rfl⟩⟩, ?_, hrest₂⟩
  cases es with
  | nil => exact hR
  | cons x es => exact hjoin _ _ _ hR

end Operators

theorem joinsKeep_product {R : Expr → Expr → Prop} (hR : LeftClosed R) : JoinsKeep R product? := by
  intro t join ht a b e h
  unfold product? at ht
  split at ht
  all_goals cases ht
  all_goals exact hR.arith _ e h

theorem joinsKeep_sum {R : Expr → Expr → Prop} (hR : LeftClosed R) : JoinsKeep R sum? := by
  intro t join ht a b e h
  unfold sum? at ht
  split at ht
  all_goals cases ht
  all_goals exact hR.arith _ e h

theorem joinsKeep_comparison {R : Expr → Expr → Prop} (hR : LeftClosed R) :
    JoinsKeep R comparison? := by
  intro t join ht a b e h
  unfold comparison? at ht
  split at ht
  all_goals cases ht
  all_goals exact hR.relation _ e h

theorem joinsKeep_equality {R : Expr → Expr → Prop} (hR : LeftClosed R) :
    JoinsKeep R equality? := by
  intro t join ht a b e h
  unfold equality? at ht
  split at ht
  all_goals cases ht
  all_goals exact hR.relation _ e h

/-- What holds of operands holds of whole expressions. -/
theorem disjunction_follows {T : Tokens → Tokens → Prop} {R : Expr → Expr → Prop}
    (hR : LeftClosed R) {p q : Parser} (hfirst : Follows T R p q) (h : Simulates p q) :
    Follows T R (disjunction p) (disjunction q) := by
  have hEq := leftClosed_eq
  have hproduct := leftAssoc_follows (joinsKeep_product hEq) h h
  have hsum := leftAssoc_follows (joinsKeep_sum hEq) hproduct hproduct
  have hcomparison := leftAssoc_follows (joinsKeep_comparison hEq) hsum hsum
  have hequality := leftAssoc_follows (joinsKeep_equality hEq) hcomparison hcomparison
  refine joined_follows (fun a b es he => hR.any es he) ?_
    (joined_follows (fun a b es he => hEq.all es he) hequality hequality)
  refine joined_follows (fun a b es he => hR.all es he) ?_ hequality
  refine leftAssoc_follows (joinsKeep_equality hR) ?_ hcomparison
  refine leftAssoc_follows (joinsKeep_comparison hR) ?_ hsum
  refine leftAssoc_follows (joinsKeep_sum hR) ?_ hproduct
  exact leftAssoc_follows (joinsKeep_product hR) hfirst h

/-! ## Operands -/

theorem expect_follows {stop : Nat} (stop' : Nat) {isToken : Token → Bool} {name : String}
    {toks toks' rest : Tokens} (ht : Alike toks toks')
    (h : expect stop isToken name toks = .ok rest) :
    ∃ rest', expect stop' isToken name toks' = .ok rest' ∧ Alike rest rest' := by
  cases toks with
  | nil => cases h
  | cons x toks =>
    obtain ⟨o, t⟩ := x
    obtain ⟨o', toks₁, rfl, ht₁⟩ := ht.cons_left
    unfold expect at h ⊢
    dsimp only at h ⊢
    split at h
    · rename_i hok
      obtain rfl := Except.ok.inj h
      exact ⟨toks₁, if_pos hok, ht₁⟩
    · cases h

/-- A closing parenthesis behind what has been read. -/
theorem close_follows {R : Expr → Expr → Prop} {stop : Nat} (stop' : Nat) {f f' : Expr}
    {toks toks' rest : Tokens} {e : Expr} (ht : Alike toks toks') (hR : R f f')
    (h : (do
      let rest ← expectParen stop toks
      .ok (f, rest) : Except EvalError (Expr × Tokens)) = .ok (e, rest)) :
    ∃ e' rest', (do
      let rest ← expectParen stop' toks'
      .ok (f', rest) : Except EvalError (Expr × Tokens)) = .ok (e', rest') ∧ R e e' ∧
        Alike rest rest' := by
  obtain ⟨rest₁, hclose, h⟩ := bind_eq_ok.1 h
  obtain ⟨rfl, rfl⟩ := Prod.mk.inj (Except.ok.inj h)
  obtain ⟨rest', hclose', hrest⟩ := expect_follows stop' ht hclose
  exact ⟨f', rest', bind_eq_ok.2 ⟨_, hclose', rfl⟩, hR, hrest⟩

section Operands

variable {R : Expr → Expr → Prop} (hR : LeftClosed R) (stop stop' : Nat) {p q : Parser}
  (h : Simulates p q)
include hR h

theorem method_follows {a b : Expr} (hab : R a b) (name : String) :
    Follows Alike R (method stop p a name) (method stop' q b name) := by
  intro toks toks' ht e rest hp
  have hplain : ∀ toks toks', Alike toks toks' →
      (.ok (if name = "length" then .length a else .member a name, toks) :
        Except EvalError (Expr × Tokens)) = .ok (e, rest) →
      ∃ e' rest', (.ok (if name = "length" then .length b else .member b name, toks') :
        Except EvalError (Expr × Tokens)) = .ok (e', rest') ∧ R e e' ∧ Alike rest rest' := by
    intro toks toks' ht hp
    obtain ⟨rfl, rfl⟩ := Prod.mk.inj (Except.ok.inj hp)
    refine ⟨_, _, rfl, ?_, ht⟩
    split
    · exact hR.length hab
    · exact hR.member name hab
  cases toks with
  | nil =>
    obtain rfl := ht.nil_left
    exact hplain [] [] ht hp
  | cons x toks =>
    obtain ⟨o, t⟩ := x
    obtain ⟨o', toks₁, rfl, ht₁⟩ := ht.cons_left
    cases t with
    | lparen =>
      unfold method at hp ⊢
      dsimp only at hp ⊢
      by_cases hincludes : name = "includes"
      · rw [if_pos hincludes] at hp ⊢
        obtain ⟨⟨arg, rest₁⟩, harg, hp⟩ := bind_eq_ok.1 hp
        obtain ⟨_, rest₁', harg', rfl, hrest₁⟩ := h _ _ ht₁ _ _ harg
        obtain ⟨e', rest', hp', hres⟩ :=
          close_follows stop' hrest₁ (hR.includes arg hab) hp
        exact ⟨e', rest', bind_eq_ok.2 ⟨_, harg', hp'⟩, hres⟩
      · rw [if_neg hincludes] at hp ⊢
        by_cases hlower : name = "toLowerCase"
        · rw [if_pos hlower] at hp ⊢
          exact close_follows stop' ht₁ (hR.text _ hab) hp
        · rw [if_neg hlower] at hp ⊢
          by_cases hupper : name = "toUpperCase"
          · rw [if_pos hupper] at hp ⊢
            exact close_follows stop' ht₁ (hR.text _ hab) hp
          · rw [if_neg hupper] at hp ⊢
            by_cases htrim : name = "trim"
            · rw [if_pos htrim] at hp ⊢
              exact close_follows stop' ht₁ (hR.text _ hab) hp
            · rw [if_neg htrim] at hp
              cases hp
    | _ => exact hplain _ _ ht hp

/-- The same accesses stand behind related operands. -/
theorem accesses_follows (fuel : Nat) {a b : Expr} (hab : R a b) :
    Follows Alike R (accesses stop p fuel a) (accesses stop' q fuel b) := by
  induction fuel generalizing a b with
  | zero =>
    intro toks toks' ht e rest hp
    obtain ⟨rfl, rfl⟩ := Prod.mk.inj (Except.ok.inj hp)
    exact ⟨b, toks', rfl, hab, ht⟩
  | succ fuel ih =>
    intro toks toks' ht e rest hp
    cases toks with
    | nil =>
      obtain rfl := ht.nil_left
      obtain ⟨rfl, rfl⟩ := Prod.mk.inj (Except.ok.inj hp)
      exact ⟨b, [], rfl, hab, .refl _⟩
    | cons x toks =>
      obtain ⟨o, t⟩ := x
      obtain ⟨o', toks₁, rfl, ht₁⟩ := ht.cons_left
      have hstop : (.ok (a, (o, t) :: toks) : Except EvalError (Expr × Tokens)) = .ok (e, rest) →
          ∃ e' rest', (.ok (b, (o', t) :: toks₁) : Except EvalError (Expr × Tokens)) =
            .ok (e', rest') ∧ R e e' ∧ Alike rest rest' := by
        intro hp
        obtain ⟨rfl, rfl⟩ := Prod.mk.inj (Except.ok.inj hp)
        exact ⟨_, _, rfl, hab, ht⟩
      unfold accesses at hp ⊢
      cases t with
      | dot =>
        dsimp only at hp ⊢
        split at hp
        · rename_i o₂ name toks₂
          obtain ⟨o₂', toks₂', rfl, ht₂⟩ := ht₁.cons_left
          obtain ⟨⟨c, rest₁⟩, hc, hp⟩ := bind_eq_ok.1 hp
          obtain ⟨d, rest₁', hd, hcd, hrest₁⟩ :=
            method_follows hR stop stop' h hab name _ _ ht₂ _ _ hc
          obtain ⟨e', rest', hp', hres⟩ := ih hcd _ _ hrest₁ _ _ hp
          exact ⟨e', rest', bind_eq_ok.2 ⟨_, hd, hp'⟩, hres⟩
        · cases hp
      | lbracket =>
        dsimp only at hp ⊢
        obtain ⟨⟨i, rest₁⟩, hi, hp⟩ := bind_eq_ok.1 hp
        obtain ⟨rest₂, hclose, hp⟩ := bind_eq_ok.1 hp
        obtain ⟨_, rest₁', hi', rfl, hrest₁⟩ := h _ _ ht₁ _ _ hi
        obtain ⟨rest₂', hclose', hrest₂⟩ := expect_follows stop' hrest₁ hclose
        obtain ⟨e', rest', hp', hres⟩ := ih (hR.index i hab) _ _ hrest₂ _ _ hp
        exact ⟨e', rest', bind_eq_ok.2 ⟨_, hi', bind_eq_ok.2 ⟨_, hclose', hp'⟩⟩, hres⟩
      | lparen => cases hp
      | _ => exact hstop hp

theorem operand_follows {T : Tokens → Tokens → Prop}
    (hprimary : Follows T R (primary stop p) (primary stop' q)) :
    Follows T R (operand stop p) (operand stop' q) := by
  intro toks toks' ht e rest hp
  obtain ⟨⟨a, rest₁⟩, ha, hp⟩ := bind_eq_ok.1 hp
  obtain ⟨b, rest₁', hb, hab, hrest₁⟩ := hprimary _ _ ht _ _ ha
  obtain ⟨e', rest', hp', hres⟩ :=
    accesses_follows hR stop stop' h rest₁.length hab _ _ hrest₁ _ _ hp
  rw [hrest₁.length] at hp'
  exact ⟨e', rest', bind_eq_ok.2 ⟨_, hb, hp'⟩, hres⟩

end Operands

/-- A word is a literal or a bare name, and it takes nothing else. -/
theorem word_eq_ok {name : String} {toks rest : Tokens} {e : Expr}
    (h : word name toks = .ok (e, rest)) :
    rest = toks ∧ ((∃ v, e = .literal v) ∨ e = .binding name) ∧
      ∀ toks', Alike toks toks' → word name toks' = .ok (e, toks') := by
  by_cases htrue : name = "true"
  · subst htrue
    obtain ⟨rfl, rfl⟩ := Prod.mk.inj (Except.ok.inj h)
    exact ⟨rfl, .inl ⟨_, rfl⟩, fun _ _ => rfl⟩
  · by_cases hfalse : name = "false"
    · subst hfalse
      obtain ⟨rfl, rfl⟩ := Prod.mk.inj (Except.ok.inj h)
      exact ⟨rfl, .inl ⟨_, rfl⟩, fun _ _ => rfl⟩
    · by_cases hnull : name = "null"
      · subst hnull
        obtain ⟨rfl, rfl⟩ := Prod.mk.inj (Except.ok.inj h)
        exact ⟨rfl, .inl ⟨_, rfl⟩, fun _ _ => rfl⟩
      · by_cases hundefined : name = "undefined"
        · subst hundefined
          obtain ⟨rfl, rfl⟩ := Prod.mk.inj (Except.ok.inj h)
          exact ⟨rfl, .inl ⟨_, rfl⟩, fun _ _ => rfl⟩
        · simp only [word, if_neg htrue, if_neg hfalse, if_neg hnull, if_neg hundefined] at h ⊢
          split at h
          · cases h
          · rename_i hparen
            obtain ⟨rfl, rfl⟩ := Prod.mk.inj (Except.ok.inj h)
            refine ⟨rfl, .inr rfl, fun toks' ht => ?_⟩
            split
            · obtain ⟨o, rest, rfl, -⟩ := ht.symm.cons_left
              exact (hparen _ _ rfl).elim
            · rfl

/-- What an operand starts with is read alike. -/
theorem primary_simulates {stop stop' : Nat} {p q : Parser} (h : Simulates p q) :
    Simulates (primary stop p) (primary stop' q) := by
  intro toks toks' ht e rest hp
  cases toks with
  | nil => cases hp
  | cons x toks =>
    obtain ⟨o, t⟩ := x
    obtain ⟨o', toks₁, rfl, ht₁⟩ := ht.cons_left
    cases t with
    | number x | str s =>
      obtain ⟨rfl, rfl⟩ := Prod.mk.inj (Except.ok.inj hp)
      exact ⟨_, _, rfl, rfl, ht₁⟩
    | ident name =>
      obtain ⟨rfl, -, hword⟩ := word_eq_ok hp
      exact ⟨e, toks₁, hword _ ht₁, rfl, ht₁⟩
    | root r =>
      cases r with
      | resident =>
        obtain ⟨rfl, rfl⟩ := Prod.mk.inj (Except.ok.inj hp)
        exact ⟨_, _, rfl, rfl, ht₁⟩
      | vars =>
        obtain ⟨named, hdot, hp⟩ := bind_eq_ok.1 hp
        obtain ⟨named', hdot', hnamed⟩ := expect_follows stop' ht₁ hdot
        split at hp
        · obtain ⟨o₂, toks₂, rfl, ht₂⟩ := hnamed.cons_left
          obtain ⟨rfl, rfl⟩ := Prod.mk.inj (Except.ok.inj hp)
          exact ⟨_, _, bind_eq_ok.2 ⟨_, hdot', rfl⟩, rfl, ht₂⟩
        · cases hp
    | lparen =>
      obtain ⟨⟨inner, rest₁⟩, hinner, hp⟩ := bind_eq_ok.1 hp
      obtain ⟨_, rest₁', hinner', rfl, hrest₁⟩ := h _ _ ht₁ _ _ hinner
      obtain ⟨e', rest', hp', hres⟩ :=
        close_follows (R := Eq) stop' hrest₁ rfl hp
      exact ⟨e', rest', bind_eq_ok.2 ⟨_, hinner', hp'⟩, hres⟩
    | _ => cases hp

/-- Signs in front of an operand are read alike. -/
theorem signed_simulates {stop stop' : Nat} {p q deeper deeper' : Parser} (h : Simulates p q)
    (hd : Simulates deeper deeper') :
    Simulates (signed stop deeper p) (signed stop' deeper' q) := by
  intro toks toks' ht e rest hp
  have hoperand := operand_follows leftClosed_eq stop stop' h (primary_simulates h)
  cases toks with
  | nil =>
    obtain rfl := ht.nil_left
    exact hoperand _ _ ht _ _ hp
  | cons x toks =>
    obtain ⟨o, t⟩ := x
    obtain ⟨o', toks₁, rfl, ht₁⟩ := ht.cons_left
    cases t with
    | bang | minus =>
      obtain ⟨⟨a, rest₁⟩, ha, hp⟩ := bind_eq_ok.1 hp
      obtain ⟨rfl, rfl⟩ := Prod.mk.inj (Except.ok.inj hp)
      obtain ⟨_, rest₁', ha', rfl, hrest₁⟩ := hd _ _ ht₁ _ _ ha
      exact ⟨_, _, bind_eq_ok.2 ⟨_, ha', rfl⟩, rfl, hrest₁⟩
    | _ => exact hoperand _ _ ht _ _ hp

theorem tooDeep_follows {T : Tokens → Tokens → Prop} {R : Expr → Expr → Prop} (limit : Nat)
    (q : Parser) : Follows T R (tooDeep limit) q :=
  fun _ _ _ _ _ hp => by cases hp

/-! ## Room to nest -/

/-- With more room an operand is read as with less. -/
theorem unary_simulates (stop stop' limit limit' : Nat) {room room' : Nat} (h : room ≤ room') :
    Simulates (unary stop limit room) (unary stop' limit' room') := by
  induction room generalizing room' with
  | zero =>
    cases room' with
    | zero => exact signed_simulates (tooDeep_follows limit _) (tooDeep_follows limit _)
    | succ room' => exact signed_simulates (tooDeep_follows limit _) (tooDeep_follows limit _)
  | succ room ih =>
    obtain ⟨room', rfl⟩ : ∃ k, room' = k + 1 := ⟨room' - 1, by omega⟩
    have hroom := ih (Nat.le_of_succ_le_succ h)
    exact signed_simulates (disjunction_follows leftClosed_eq hroom hroom) hroom

/-- With more room an expression is read as with less. -/
theorem expression_simulates (stop stop' limit limit' : Nat) {room room' : Nat}
    (h : room ≤ room') :
    Simulates (expression stop limit room) (expression stop' limit' room') := by
  cases room with
  | zero => exact tooDeep_follows limit _
  | succ room =>
    obtain ⟨room', rfl⟩ : ∃ k, room' = k + 1 := ⟨room' - 1, by omega⟩
    have hroom := unary_simulates stop stop' limit limit' (Nat.le_of_succ_le_succ h)
    exact disjunction_follows leftClosed_eq hroom hroom

/-! ## Paths -/

/-- The tokens of a path that starts with a word, for itself and below the variables. -/
inductive Below (root : String) : Tokens → Tokens → Prop where
  | intro {o o₁ o₂ o₃ : Nat} {rest rest' : Tokens} : Alike rest rest' →
      Below root ((o, .ident root) :: rest)
        ((o₁, .root .vars) :: (o₂, .dot) :: (o₃, .ident root) :: rest')

theorem primary_below {root : String} {stop stop' : Nat} {p q : Parser} :
    Follows (Below root) (Rerooted root) (primary stop p) (primary stop' q) := by
  rintro _ _ ⟨hrest⟩ e rest hp
  rename_i o o₁ o₂ o₃ toks toks'
  have hword : word root toks = .ok (e, rest) := hp
  obtain ⟨rfl, he, -⟩ := word_eq_ok hword
  refine ⟨.var root, toks', rfl, ?_, hrest⟩
  rcases he with ⟨v, rfl⟩ | rfl
  · exact .literal v
  · exact .binding

theorem signed_below {root : String} {R : Expr → Expr → Prop} (hR : LeftClosed R) {stop stop' : Nat}
    (hprimary : ∀ p q, Follows (Below root) R (primary stop p) (primary stop' q))
    {p q deeper deeper' : Parser} (h : Simulates p q) :
    Follows (Below root) R (signed stop deeper p) (signed stop' deeper' q) := by
  rintro _ _ ⟨hrest⟩ e rest hp
  exact operand_follows hR stop stop' h (hprimary p q) _ _ ⟨hrest⟩ _ _ hp

/-- A word that no parenthesis follows is no call. -/
theorem word_of_no_call {name : String} {toks : Tokens}
    (h : ∀ o rest, toks ≠ (o, .lparen) :: rest) :
    ∃ e, word name toks = .ok (e, toks) ∧ Rerooted name e (.var name) := by
  unfold word
  split
  · exact ⟨_, rfl, .literal _⟩
  · split
    · exact ⟨_, rfl, .literal _⟩
    · split
      · exact ⟨_, rfl, .literal _⟩
      · split
        · exact ⟨_, rfl, .literal _⟩
        · split
          · exact (h _ _ rfl).elim
          · exact ⟨_, rfl, .binding⟩

/-- Below the variables no call stands behind the root, so that it is a word for itself. -/
theorem operand_above {root : String} {stop stop' : Nat} {p q : Parser} (h : Simulates p q) :
    Follows (fun toks toks' => Below root toks' toks) (fun a b => Rerooted root b a)
      (operand stop p) (operand stop' q) := by
  rintro _ _ ⟨hrest⟩ e rest hp
  rename_i o o₁ o₂ o₃ toks toks'
  have hp : accesses stop p toks'.length (.var root) toks' = .ok (e, rest) := hp
  have hcall : ∀ o rest, toks ≠ (o, .lparen) :: rest := by
    rintro o rest rfl
    obtain ⟨o', rest', rfl, -⟩ := hrest.cons_left
    cases hp
  obtain ⟨b, hb, hroot⟩ : ∃ e, word root toks = .ok (e, toks) ∧ Rerooted root e (.var root) :=
    word_of_no_call hcall
  obtain ⟨e', rest', hp', hres⟩ := accesses_follows (leftClosed_rerooted root).flip stop stop' h
    toks'.length hroot _ _ hrest.symm _ _ hp
  rw [← hrest.length] at hp'
  exact ⟨e', rest', bind_eq_ok.2 ⟨_, hb, hp'⟩, hres⟩

theorem signed_above {root : String} {stop stop' : Nat} {p q deeper deeper' : Parser}
    (h : Simulates p q) :
    Follows (fun toks toks' => Below root toks' toks) (fun a b => Rerooted root b a)
      (signed stop deeper p) (signed stop' deeper' q) := by
  rintro _ _ ⟨hrest⟩ e rest hp
  exact operand_above h _ _ ⟨hrest⟩ _ _ hp

section Whole

variable {T : Tokens → Tokens → Prop} {R : Expr → Expr → Prop} (stop stop' limit limit' : Nat)
  (hsigned : ∀ p q deeper deeper' : Parser, Simulates p q →
    Follows T R (signed stop deeper p) (signed stop' deeper' q))
include hsigned

/-- Operands that differ in their root are read alike. -/
theorem unary_follows {room room' : Nat} (h : room ≤ room') :
    Follows T R (unary stop limit room) (unary stop' limit' room') := by
  cases room with
  | zero =>
    cases room' with
    | zero => exact hsigned _ _ _ _ (tooDeep_follows limit _)
    | succ room' => exact hsigned _ _ _ _ (tooDeep_follows limit _)
  | succ room =>
    obtain ⟨room', rfl⟩ : ∃ k, room' = k + 1 := ⟨room' - 1, by omega⟩
    have hroom := unary_simulates stop stop' limit limit' (Nat.le_of_succ_le_succ h)
    exact hsigned _ _ _ _ (disjunction_follows leftClosed_eq hroom hroom)

/-- What holds of the first operand holds of the whole expression. -/
theorem expression_follows (hR : LeftClosed R) {room room' : Nat} (h : room ≤ room') :
    Follows T R (expression stop limit room) (expression stop' limit' room') := by
  cases room with
  | zero => exact tooDeep_follows limit _
  | succ room =>
    obtain ⟨room', rfl⟩ : ∃ k, room' = k + 1 := ⟨room' - 1, by omega⟩
    have hroom := Nat.le_of_succ_le_succ h
    exact disjunction_follows hR (unary_follows stop stop' limit limit' hsigned hroom)
      (unary_simulates stop stop' limit limit' hroom)

end Whole

/-- What holds of the word that both start with holds of the two readings. -/
theorem expression_below (root : String) {R : Expr → Expr → Prop} (hR : LeftClosed R)
    (stop stop' limit limit' : Nat)
    (hprimary : ∀ p q, Follows (Below root) R (primary stop p) (primary stop' q))
    {room room' : Nat} (h : room ≤ room') :
    Follows (Below root) R (expression stop limit room) (expression stop' limit' room') :=
  expression_follows stop stop' limit limit' (fun _ _ _ _ h => signed_below hR hprimary h) hR h

/-- What can be read below the variables can be read for itself. -/
theorem expression_above (root : String) (stop stop' limit limit' : Nat) {room room' : Nat}
    (h : room ≤ room') : Follows (fun toks toks' => Below root toks' toks)
      (fun a b => Rerooted root b a) (expression stop limit room) (expression stop' limit' room') :=
  expression_follows stop stop' limit limit' (fun _ _ _ _ h => signed_above h)
    (leftClosed_rerooted root).flip h

end Archipelago.Expr.Parser
