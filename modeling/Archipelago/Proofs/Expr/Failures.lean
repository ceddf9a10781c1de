import Archipelago.Expr.Eval
import Archipelago.Proofs.Basics
import Archipelago.Proofs.Expr.References

/-!
# How an evaluation fails

An expression that can be read fails for the values that it meets, unless one of its names stands
for nothing. Operations on values fail for the types of their operands only, or for a division by
zero.
-/

namespace Archipelago

universe u v

/-! ## Outcomes -/

/-- What a computation gives has one property, or the error that it fails with another. -/
def Yields {ε : Type u} {α : Type v} (P : ε → Prop) (Q : α → Prop) : Except ε α → Prop
  | .ok a => Q a
  | .error e => P e

/-- A computation fails with such errors only. -/
abbrev FailsOnly {ε : Type u} {α : Type v} (P : ε → Prop) (x : Except ε α) : Prop :=
  Yields P (fun _ => True) x

namespace Yields

variable {ε : Type u} {α β : Type v} {P : ε → Prop} {Q : α → Prop} {R : β → Prop}

theorem bind {x : Except ε α} {f : α → Except ε β} (hx : Yields P Q x)
    (hf : ∀ a, Q a → Yields P R (f a)) : Yields P R (x >>= f) := by
  cases x with
  | error e => exact hx
  | ok a => exact hf a hx

theorem mono {S : α → Prop} {x : Except ε α} (hx : Yields P Q x) (h : ∀ a, Q a → S a) :
    Yields P S x := by
  cases x with
  | error e => exact hx
  | ok a => exact h a hx

theorem map {f : α → β} {x : Except ε α} (hx : FailsOnly P x) : FailsOnly P (x.map f) := by
  cases x with
  | error e => exact hx
  | ok a => exact True.intro

theorem error {x : Except ε α} {e : ε} (hx : Yields P Q x) (he : x = .error e) : P e := by
  rwa [he] at hx

theorem ok {x : Except ε α} {a : α} (hx : Yields P Q x) (ha : x = .ok a) : Q a := by
  rwa [ha] at hx

end Yields

/-! ## Errors -/

/-- A kind of error that a check of the text is there to rule out. -/
def ErrorKind.isAvoidable : ErrorKind → Bool
  | unknownVariable | unknownIdentifier | malformed | limitExceeded => true
  | _ => false

/-- The error is of no avoidable kind, but perhaps for a variable that is missing. -/
def EvalError.Excused (missing : String → Prop) (e : EvalError) : Prop :=
  e.kind.isAvoidable = true → ∃ name, missing name ∧ e = .unknownVariable name

section

variable {missing : String → Prop}

theorem EvalError.excused_of_kind {e : EvalError} (h : e.kind.isAvoidable = false) :
    e.Excused missing := fun he => by rw [h] at he; cases he

theorem excused_mismatch (expected : String) (v : Value) :
    (EvalError.mismatch expected v).Excused missing := EvalError.excused_of_kind rfl

/-! ## Operations -/

/-- An evaluation fails for the values that it meets only, or for a variable that is missing. -/
abbrev FailsByValue (missing : String → Prop) {α : Type} (x : Except EvalError α) : Prop :=
  FailsOnly (EvalError.Excused missing) x

namespace Value

theorem asOperand_fails (v : Value) : FailsByValue missing v.asOperand := by
  unfold asOperand
  split
  · exact True.intro
  · exact excused_mismatch _ _

/-- Values that cannot be compared are of the wrong type. -/
theorem order_fails (a b : Value) : FailsByValue missing (order a b) := by
  unfold order
  split
  · split
    · exact True.intro
    · exact True.intro
  · exact (asOperand_fails a).bind fun _ _ => (asOperand_fails b).bind fun _ _ => True.intro

theorem includes_fails (a b : Value) : FailsByValue missing (a.includes b) := by
  unfold includes
  split
  · exact True.intro
  · exact True.intro
  · exact True.intro
  · exact True.intro
  · exact excused_mismatch _ _

theorem applyText_fails (op : TextOp) (a : Value) : FailsByValue missing (a.applyText op) := by
  unfold applyText
  split
  · exact True.intro
  · exact True.intro
  · exact True.intro
  · exact excused_mismatch _ _

theorem numeric_fails (f : Float → Float → Float) (a b : Value) :
    FailsByValue missing (numeric f a b) :=
  (asOperand_fails a).bind fun _ _ => (asOperand_fails b).bind fun _ _ => True.intro

theorem divided_fails (f : Float → Float → Float) (a b : Value) :
    FailsByValue missing (divided f a b) := by
  refine (asOperand_fails b).bind fun y _ => ?_
  split
  · exact EvalError.excused_of_kind rfl
  · exact numeric_fails f a b

/-- An operator fails for the values that it is given. -/
theorem applyArith_fails (op : ArithOp) (a b : Value) :
    FailsByValue missing (applyArith op a b) := by
  cases op with
  | add =>
    show FailsByValue missing (plus a b)
    unfold plus
    split
    · exact True.intro
    · exact True.intro
    · exact True.intro
    · exact excused_mismatch _ _
    · exact excused_mismatch _ _
  | sub | mul => exact numeric_fails _ a b
  | div | mod => exact divided_fails _ a b

theorem applyRelation_fails (op : Relation) (a b : Value) :
    FailsByValue missing (applyRelation op a b) := by
  cases op with
  | eq | ne => exact True.intro
  | lt | le | gt | ge => exact (order_fails a b).map

end Value

/-! ## Expressions -/

namespace Expr

/-- Each name of the expression stands for something, or else is a variable that is missing. -/
structure Resolves (missing : String → Prop) (scope : Scope) (locals : Locals) (e : Expr) :
    Prop where
  vars : ∀ name, e.ReadsVar name →
    (locals.get? name).isSome = true ∨ (scope.lookup name).isSome = true ∨ missing name
  bindings : ∀ name, e.ReadsBinding name → (locals.get? name).isSome = true

variable {scope : Scope} {locals : Locals}

/-- A variable that resolves fails only where it is one of those that may be missing. -/
theorem eval_var_fails {name : String} (h : Resolves missing scope locals (var name)) :
    FailsByValue missing (eval scope locals (var name)) := by
  unfold eval
  split
  · exact True.intro
  · rename_i hnone
    rw [Option.or_eq_none_iff] at hnone
    rcases h.vars name (readsVar_var.2 rfl) with hl | hs | hm
    · simp [hnone.1] at hl
    · simp [hnone.2] at hs
    · exact fun _ => ⟨name, hm, rfl⟩

/-- A name that resolves is bound, so that reading it fails for no other cause. -/
theorem eval_binding_fails {name : String} (h : Resolves missing scope locals (binding name)) :
    FailsByValue missing (eval scope locals (binding name)) := by
  have hbound := h.bindings name (readsBinding_binding.2 rfl)
  unfold eval
  split
  · exact True.intro
  · rename_i hnone
    simp [hnone] at hbound

theorem Resolves.of_or {e a b : Expr} (h : Resolves missing scope locals e)
    (hv : ∀ name, e.ReadsVar name ↔ a.ReadsVar name ∨ b.ReadsVar name)
    (hb : ∀ name, e.ReadsBinding name ↔ a.ReadsBinding name ∨ b.ReadsBinding name) :
    Resolves missing scope locals a ∧ Resolves missing scope locals b :=
  ⟨⟨fun name hn => h.vars name ((hv name).2 (.inl hn)),
      fun name hn => h.bindings name ((hb name).2 (.inl hn))⟩,
    ⟨fun name hn => h.vars name ((hv name).2 (.inr hn)),
      fun name hn => h.bindings name ((hb name).2 (.inr hn))⟩⟩

mutual

/-- An expression whose names stand for something fails for the values that it meets only. -/
theorem eval_fails : (e : Expr) → Resolves missing scope locals e →
    FailsByValue missing (eval scope locals e)
  | literal _, _ => True.intro
  | var _, h => eval_var_fails h
  | resident, _ => True.intro
  | binding _, h => eval_binding_fails h
  | member a _, h => (eval_fails a ⟨h.vars, h.bindings⟩).bind fun _ _ => True.intro
  | index a b, h => by
    obtain ⟨ha, hb⟩ := h.of_or (fun _ => readsVar_index) fun _ => readsBinding_index
    exact (eval_fails a ha).bind fun _ _ => (eval_fails b hb).bind fun _ _ => True.intro
  | length a, h => (eval_fails a ⟨h.vars, h.bindings⟩).bind fun _ _ => True.intro
  | includes a b, h => by
    obtain ⟨ha, hb⟩ := h.of_or (fun _ => readsVar_includes) fun _ => readsBinding_includes
    exact (eval_fails a ha).bind fun _ _ => (eval_fails b hb).bind fun _ _ =>
      Value.includes_fails _ _
  | text op a, h => (eval_fails a ⟨h.vars, h.bindings⟩).bind fun _ _ => Value.applyText_fails op _
  | arith op a b, h => by
    obtain ⟨ha, hb⟩ := h.of_or (fun _ => readsVar_arith) fun _ => readsBinding_arith
    exact (eval_fails a ha).bind fun _ _ => (eval_fails b hb).bind fun _ _ =>
      Value.applyArith_fails op _ _
  | neg a, h => (eval_fails a ⟨h.vars, h.bindings⟩).bind fun v _ =>
    (Value.asOperand_fails v).bind fun _ _ => True.intro
  | relation op a b, h => by
    obtain ⟨ha, hb⟩ := h.of_or (fun _ => readsVar_relation) fun _ => readsBinding_relation
    exact (eval_fails a ha).bind fun _ _ => (eval_fails b hb).bind fun _ _ =>
      Value.applyRelation_fails op _ _
  | all es, h => (evalTerms_fails es h).1
  | any es, h => (evalTerms_fails es ⟨h.vars, h.bindings⟩).2
  | not a, h => (eval_fails a ⟨h.vars, h.bindings⟩).bind fun _ _ => True.intro

/-- Terms that are joined, by either of the two joins. -/
theorem evalTerms_fails : (es : List Expr) → Resolves missing scope locals (all es) →
    FailsByValue missing (evalAll scope locals es) ∧ FailsByValue missing (evalAny scope locals es)
  | [], _ => ⟨True.intro, True.intro⟩
  | e :: es, h => by
    obtain ⟨he, hes⟩ := h.of_or (fun _ => readsVar_all) fun _ => readsBinding_all
    obtain ⟨hall, hany⟩ := evalTerms_fails es hes
    constructor
    · refine (eval_fails e he).bind fun v _ => ?_
      split
      · exact hall
      · exact True.intro
    · refine (eval_fails e he).bind fun v _ => ?_
      split
      · exact True.intro
      · exact hany

end

end Expr

end

end Archipelago
