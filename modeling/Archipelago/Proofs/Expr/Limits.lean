import Archipelago.Expr.Parser
import Archipelago.Proofs.Basics

/-!
# What limits do

Limits decide whether a text is read, never as what: within some limits a parser does as it does
within wider ones, or it stops at a limit. So a text that can be read is read as the same
expression within any other limits, unless it is beyond those.
-/

namespace Archipelago

/-- Limits that are nowhere wider than others. -/
structure EvalLimits.Le (l m : EvalLimits) : Prop where
  length : l.maxExpressionLength ≤ m.maxExpressionLength
  nesting : l.maxNesting ≤ m.maxNesting

theorem EvalLimits.Le.refl (l : EvalLimits) : l.Le l := ⟨Nat.le_refl _, Nat.le_refl _⟩

namespace Expr

universe u

/-- The one outcome is the other, unless a limit cut it short. -/
def CutShort {α : Type u} (x y : Except EvalError α) : Prop :=
  x = y ∨ ∃ limit, x = .error (.limitExceeded limit)

namespace CutShort

variable {α β : Type u} {x y : Except EvalError α}

theorem refl (x : Except EvalError α) : CutShort x x := .inl rfl

theorem ok {a : α} (h : CutShort x y) (hx : x = .ok a) : y = .ok a := by
  rcases h with rfl | ⟨limit, hlimit⟩
  · exact hx
  · rw [hx] at hlimit
    cases hlimit

/-- What is cut short stays so in what follows. -/
theorem bind {f g : α → Except EvalError β} (h : CutShort x y) (hf : ∀ a, CutShort (f a) (g a)) :
    CutShort (x >>= f) (y >>= g) := by
  rcases h with rfl | ⟨limit, rfl⟩
  · cases x with
    | error e => exact .refl _
    | ok a => exact hf a
  · exact .inr ⟨limit, rfl⟩

end CutShort

namespace Parser

/-- From the same tokens the one does as the other, or it stops at a limit. -/
def Within (p q : Parser) : Prop := ∀ toks, CutShort (p toks) (q toks)

theorem tooDeep_within (limit : Nat) (q : Parser) : Within (tooDeep limit) q :=
  fun _ => .inr ⟨_, rfl⟩

/-! ## Operators -/

section

variable {p q : Parser} (h : Within p q)
include h

theorem chain_within (operator? : Token → Option (Expr → Expr → Expr)) (fuel : Nat) (left : Expr) :
    Within (chain p operator? fuel left) (chain q operator? fuel left) := by
  induction fuel generalizing left with
  | zero => exact fun _ => .refl _
  | succ fuel ih =>
    intro toks
    cases toks with
    | nil => exact .refl _
    | cons x rest =>
      unfold chain
      cases operator? x.2 with
      | none => exact .refl _
      | some join => exact (h rest).bind fun r => ih _ r.2

theorem leftAssoc_within (operator? : Token → Option (Expr → Expr → Expr)) :
    Within (leftAssoc p operator?) (leftAssoc q operator?) :=
  fun toks => (h toks).bind fun r => chain_within h operator? _ _ r.2

theorem more_within (isSeparator : Token → Bool) (fuel : Nat) (toks : Tokens) :
    CutShort (more p isSeparator fuel toks) (more q isSeparator fuel toks) := by
  induction fuel generalizing toks with
  | zero => exact .refl _
  | succ fuel ih =>
    cases toks with
    | nil => exact .refl _
    | cons x rest =>
      unfold more
      split
      · exact (h rest).bind fun r => (ih r.2).bind fun _ => .refl _
      · exact .refl _

theorem joined_within (isSeparator : Token → Bool) (join : List Expr → Expr) :
    Within (joined p isSeparator join) (joined q isSeparator join) :=
  fun toks => (h toks).bind fun r => (more_within h isSeparator _ r.2).bind fun _ => .refl _

theorem disjunction_within : Within (disjunction p) (disjunction q) := by
  have hsum := leftAssoc_within (leftAssoc_within h product?) sum?
  have hequality := leftAssoc_within (leftAssoc_within hsum comparison?) equality?
  exact joined_within (joined_within hequality _ _) _ _

/-! ## Operands -/

theorem method_within (stop : Nat) (target : Expr) (name : String) :
    Within (method stop p target name) (method stop q target name) := by
  intro toks
  cases toks with
  | nil => exact .refl _
  | cons x rest =>
    obtain ⟨o, t⟩ := x
    cases t with
    | lparen =>
      unfold method
      dsimp only
      split
      · exact (h rest).bind fun _ => .refl _
      · exact .refl _
    | _ => exact .refl _

/-- With more room the same accesses are read. -/
theorem accesses_within (stop fuel : Nat) (e : Expr) :
    Within (accesses stop p fuel e) (accesses stop q fuel e) := by
  induction fuel generalizing e with
  | zero => exact fun _ => .refl _
  | succ fuel ih =>
    intro toks
    cases toks with
    | nil => exact .refl _
    | cons x rest =>
      obtain ⟨o, t⟩ := x
      cases t with
      | dot =>
        unfold accesses
        dsimp only
        split
        · exact (method_within h stop e _ _).bind fun r => ih _ r.2
        · exact .refl _
      | lbracket =>
        unfold accesses
        exact (h rest).bind fun r => (CutShort.refl _).bind fun _ => ih _ _
      | _ => exact .refl _

theorem primary_within (stop : Nat) : Within (primary stop p) (primary stop q) := by
  intro toks
  cases toks with
  | nil => exact .refl _
  | cons x rest =>
    obtain ⟨o, t⟩ := x
    cases t with
    | lparen => exact (h rest).bind fun _ => .refl _
    | root r =>
      cases r with
      | resident => exact .refl _
      | vars => exact .refl _
    | _ => exact .refl _

theorem operand_within (stop : Nat) : Within (operand stop p) (operand stop q) :=
  fun toks => (primary_within h stop toks).bind fun r => accesses_within h stop _ _ r.2

theorem signed_within (stop : Nat) {deeper deeper' : Parser} (hd : Within deeper deeper') :
    Within (signed stop deeper p) (signed stop deeper' q) := by
  intro toks
  cases toks with
  | nil => exact operand_within h stop _
  | cons x rest =>
    obtain ⟨o, t⟩ := x
    cases t with
    | bang | minus => exact (hd rest).bind fun _ => .refl _
    | _ => exact operand_within h stop _

end

/-! ## Room to nest -/

/-- With more room an operand is read as before, or not cut short any more. -/
theorem unary_within (stop limit limit' : Nat) {room room' : Nat} (h : room ≤ room') :
    Within (unary stop limit room) (unary stop limit' room') := by
  induction room generalizing room' with
  | zero =>
    cases room' with
    | zero => exact signed_within (tooDeep_within limit _) stop (tooDeep_within limit _)
    | succ room' => exact signed_within (tooDeep_within limit _) stop (tooDeep_within limit _)
  | succ room ih =>
    obtain ⟨room', rfl⟩ : ∃ k, room' = k + 1 := ⟨room' - 1, by omega⟩
    have hroom := ih (Nat.le_of_succ_le_succ h)
    exact signed_within (disjunction_within hroom) stop hroom

/-- With more room an expression is read as before, or not cut short any more. -/
theorem expression_within (stop limit limit' : Nat) {room room' : Nat} (h : room ≤ room') :
    Within (expression stop limit room) (expression stop limit' room') := by
  cases room with
  | zero => exact tooDeep_within limit _
  | succ room =>
    obtain ⟨room', rfl⟩ : ∃ k, room' = k + 1 := ⟨room' - 1, by omega⟩
    exact disjunction_within (unary_within stop limit limit' (Nat.le_of_succ_le_succ h))

end Parser

/-! ## Texts -/

/-- Under wider limits a text is read as before, or not cut short any more. -/
theorem parse_within {l m : EvalLimits} (h : l.Le m) (src : String) :
    CutShort (parse l src) (parse m src) := by
  unfold parse
  split
  · exact .inr ⟨_, rfl⟩
  · rename_i hshort
    rw [if_neg fun hlong => hshort (Nat.lt_of_le_of_lt h.length hlong)]
    refine (CutShort.refl _).bind fun toks => ?_
    exact (Parser.expression_within _ _ _ h.nesting toks).bind fun _ => .refl _

/-- A path is read as an expression, whatever the limits are. -/
theorem exists_parsePath_eq (path : String) : ∃ src, ∀ limits, parsePath limits path =
    parse limits src := by
  unfold parsePath
  dsimp only
  split
  · exact ⟨_, fun _ => rfl⟩
  · exact ⟨_, fun _ => rfl⟩

/-- What can be read under some limits can be read under wider ones. -/
theorem parse_mono {l m : EvalLimits} (h : l.Le m) {src : String} {e : Expr}
    (hp : parse l src = .ok e) : parse m src = .ok e :=
  (parse_within h src).ok hp

/-- A path that can be read under some limits can be read under wider ones. -/
theorem parsePath_mono {l m : EvalLimits} (h : l.Le m) {path : String} {e : Expr}
    (hp : parsePath l path = .ok e) : parsePath m path = .ok e := by
  obtain ⟨src, hsrc⟩ := exists_parsePath_eq path
  rw [hsrc] at hp ⊢
  exact parse_mono h hp

/-- Limits that are as wide as either. -/
def wider (l m : EvalLimits) : EvalLimits :=
  ⟨max l.maxExpressionLength m.maxExpressionLength, max l.maxNesting m.maxNesting⟩

theorem le_wider_left (l m : EvalLimits) : l.Le (wider l m) :=
  ⟨Nat.le_max_left _ _, Nat.le_max_left _ _⟩

theorem le_wider_right (l m : EvalLimits) : m.Le (wider l m) :=
  ⟨Nat.le_max_right _ _, Nat.le_max_right _ _⟩

/-- What can be read is read as the same within any limits that it is not beyond. -/
theorem cutShort_of_parse {l : EvalLimits} {src : String} {e : Expr} (h : parse l src = .ok e)
    (m : EvalLimits) : CutShort (parse m src) (.ok e) :=
  parse_mono (le_wider_left l m) h ▸ parse_within (le_wider_right l m) src

theorem cutShort_of_parsePath {l : EvalLimits} {path : String} {e : Expr}
    (h : parsePath l path = .ok e) (m : EvalLimits) : CutShort (parsePath m path) (.ok e) := by
  obtain ⟨src, hsrc⟩ := exists_parsePath_eq path
  rw [hsrc] at h ⊢
  exact cutShort_of_parse h m

/-- Wider limits never change what is read: a text that can be read, and one that fails but at a
limit, has the same outcome within them. What can only be read within the wider ones is beyond a
limit of the narrow ones. -/
theorem parse_raised {l m : EvalLimits} (h : l.Le m) (src : String) :
    (∀ e, parse l src = .ok e → parse m src = .ok e) ∧
      (∀ e, parse m src = .ok e →
        parse l src = .ok e ∨ ∃ limit, parse l src = .error (.limitExceeded limit)) ∧
      ∀ e, parse l src = .error e → (∀ limit, e ≠ .limitExceeded limit) →
        parse m src = .error e := by
  have hwithin := parse_within h src
  refine ⟨fun e => hwithin.ok, fun e hm => ?_, fun e hl hplain => ?_⟩
  · rcases hwithin with hsame | hlimit
    · exact .inl (hsame.trans hm)
    · exact .inr hlimit
  · rcases hwithin with hsame | ⟨limit, hlimit⟩
    · exact hsame ▸ hl
    · exact absurd (Except.error.inj (hl.symm.trans hlimit)) (hplain limit)

/-- One parenthesis is read the same for a nesting of two and of three. Two are beyond the first
one. -/
theorem parse_raised_nested :
    EvalLimits.Le ⟨20, 2⟩ ⟨40, 3⟩ ∧
      (∃ e, parse ⟨20, 2⟩ "(1)" = .ok e ∧ parse ⟨40, 3⟩ "(1)" = .ok e) ∧
      (∃ e, parse ⟨40, 3⟩ "((1))" = .ok e) ∧
      ∃ limit, parse ⟨20, 2⟩ "((1))" = .error (.limitExceeded limit) := by
  have hle : EvalLimits.Le ⟨20, 2⟩ ⟨40, 3⟩ := ⟨by decide, by decide⟩
  have hread : (parse ⟨20, 2⟩ "(1)").toOption.isSome = true ∧
      (parse ⟨40, 3⟩ "((1))").toOption.isSome = true ∧
      (parse ⟨20, 2⟩ "((1))").toOption.isSome = false := by
    decide +kernel
  obtain ⟨hone, htwo, hbeyond⟩ := hread
  obtain ⟨e, hone⟩ := Option.isSome_iff_exists.1 hone
  obtain ⟨e', htwo⟩ := Option.isSome_iff_exists.1 htwo
  rw [toOption_eq_some] at hone htwo
  refine ⟨hle, ⟨e, hone, (parse_raised hle _).1 e hone⟩, ⟨e', htwo⟩, ?_⟩
  refine ((parse_raised hle _).2.1 e' htwo).resolve_left fun hok => ?_
  rw [hok] at hbeyond
  cases hbeyond

end Expr

end Archipelago
