import Archipelago.Expr
import Mathlib.Tactic.Tauto

/-!
# The names in an expression

References are gathered into what is there already. Which names come out is told by what went in
and by the parts of the expression, whatever the order.
-/

namespace Archipelago.Expr

/-- A name is referred to as a variable. -/
def ReadsVar (e : Expr) (name : String) : Prop := name ∈ e.references.vars

/-- A name is referred to as a bare one. -/
def ReadsBinding (e : Expr) (name : String) : Prop := name ∈ e.references.bindings

theorem mem_dependencies {e : Expr} {name : String} : name ∈ e.dependencies ↔ e.ReadsVar name :=
  Iff.rfl

mutual

theorem mem_collect (r : References) (name : String) : (e : Expr) →
    (name ∈ (collect r e).vars ↔ name ∈ r.vars ∨ e.ReadsVar name) ∧
      (name ∈ (collect r e).bindings ↔ name ∈ r.bindings ∨ e.ReadsBinding name)
  | literal _ | resident => by
    simp [collect, ReadsVar, ReadsBinding, references, References.none]
  | var other => by
    simp [collect, ReadsVar, ReadsBinding, references, References.none, References.addVar,
      mem_addNew]
  | binding other => by
    simp [collect, ReadsVar, ReadsBinding, references, References.none, References.addBinding,
      mem_addNew]
  | member a _ | length a | text _ a | neg a | not a => mem_collect r name a
  | index a b | includes a b | arith _ a b | relation _ a b => by
    have ha := mem_collect r name a
    have hb := mem_collect (collect r a) name b
    have hb' := mem_collect (collect .none a) name b
    simp only [ReadsVar, ReadsBinding, references, collect] at ha hb hb' ⊢
    rw [hb.1, hb.2, hb'.1, hb'.2, ha.1, ha.2, or_assoc, or_assoc]
    exact ⟨Iff.rfl, Iff.rfl⟩
  | all es | any es => mem_collectAll r name es

theorem mem_collectAll (r : References) (name : String) : (es : List Expr) →
    (name ∈ (collectAll r es).vars ↔ name ∈ r.vars ∨ name ∈ (collectAll .none es).vars) ∧
      (name ∈ (collectAll r es).bindings ↔
        name ∈ r.bindings ∨ name ∈ (collectAll .none es).bindings)
  | [] => by simp [collectAll, References.none]
  | e :: es => by
    have he := mem_collect r name e
    have hes := mem_collectAll (collect r e) name es
    have hes' := mem_collectAll (collect .none e) name es
    simp only [ReadsVar, ReadsBinding, references, collectAll] at he hes hes' ⊢
    rw [hes.1, hes.2, hes'.1, hes'.2, he.1, he.2, or_assoc, or_assoc]
    exact ⟨Iff.rfl, Iff.rfl⟩

end

/-! ## The parts of an expression -/

section Parts

variable {name other : String} {a b e : Expr} {es : List Expr}

@[simp] theorem readsVar_var : (var other).ReadsVar name ↔ name = other := by
  simp [ReadsVar, references, collect, References.none, References.addVar, mem_addNew]

@[simp] theorem readsBinding_binding : (binding other).ReadsBinding name ↔ name = other := by
  simp [ReadsBinding, references, collect, References.none, References.addBinding, mem_addNew]

@[simp] theorem readsVar_index :
    (index a b).ReadsVar name ↔ a.ReadsVar name ∨ b.ReadsVar name := (mem_collect _ name b).1
@[simp] theorem readsVar_includes :
    (includes a b).ReadsVar name ↔ a.ReadsVar name ∨ b.ReadsVar name := (mem_collect _ name b).1
@[simp] theorem readsVar_arith {op : ArithOp} :
    (arith op a b).ReadsVar name ↔ a.ReadsVar name ∨ b.ReadsVar name := (mem_collect _ name b).1
@[simp] theorem readsVar_relation {op : Relation} :
    (relation op a b).ReadsVar name ↔ a.ReadsVar name ∨ b.ReadsVar name := (mem_collect _ name b).1

@[simp] theorem readsBinding_index :
    (index a b).ReadsBinding name ↔ a.ReadsBinding name ∨ b.ReadsBinding name :=
  (mem_collect _ name b).2
@[simp] theorem readsBinding_includes :
    (includes a b).ReadsBinding name ↔ a.ReadsBinding name ∨ b.ReadsBinding name :=
  (mem_collect _ name b).2
@[simp] theorem readsBinding_arith {op : ArithOp} :
    (arith op a b).ReadsBinding name ↔ a.ReadsBinding name ∨ b.ReadsBinding name :=
  (mem_collect _ name b).2
@[simp] theorem readsBinding_relation {op : Relation} :
    (relation op a b).ReadsBinding name ↔ a.ReadsBinding name ∨ b.ReadsBinding name :=
  (mem_collect _ name b).2

@[simp] theorem readsVar_all :
    (all (e :: es)).ReadsVar name ↔ e.ReadsVar name ∨ (all es).ReadsVar name :=
  (mem_collectAll _ name es).1
@[simp] theorem readsVar_any :
    (any (e :: es)).ReadsVar name ↔ e.ReadsVar name ∨ (any es).ReadsVar name :=
  (mem_collectAll _ name es).1
@[simp] theorem readsBinding_all :
    (all (e :: es)).ReadsBinding name ↔ e.ReadsBinding name ∨ (all es).ReadsBinding name :=
  (mem_collectAll _ name es).2
@[simp] theorem readsBinding_any :
    (any (e :: es)).ReadsBinding name ↔ e.ReadsBinding name ∨ (any es).ReadsBinding name :=
  (mem_collectAll _ name es).2

end Parts

/-! ## A path and its root -/

/-- Two readings of the same path: the second takes the word that it starts with for a variable,
the first for a bare name or for a literal. -/
inductive Rerooted (root : String) : Expr → Expr → Prop where
  | literal (v : Value) : Rerooted root (literal v) (var root)
  | binding : Rerooted root (binding root) (var root)
  | member {a b : Expr} (name : String) : Rerooted root a b →
      Rerooted root (member a name) (member b name)
  | index {a b : Expr} (i : Expr) : Rerooted root a b → Rerooted root (index a i) (index b i)
  | length {a b : Expr} : Rerooted root a b → Rerooted root (length a) (length b)
  | includes {a b : Expr} (e : Expr) : Rerooted root a b →
      Rerooted root (includes a e) (includes b e)
  | text {a b : Expr} (op : TextOp) : Rerooted root a b → Rerooted root (text op a) (text op b)
  | arith {a b : Expr} (op : ArithOp) (e : Expr) : Rerooted root a b →
      Rerooted root (arith op a e) (arith op b e)
  | relation {a b : Expr} (op : Relation) (e : Expr) : Rerooted root a b →
      Rerooted root (relation op a e) (relation op b e)
  | all {a b : Expr} (es : List Expr) : Rerooted root a b →
      Rerooted root (all (a :: es)) (all (b :: es))
  | any {a b : Expr} (es : List Expr) : Rerooted root a b →
      Rerooted root (any (a :: es)) (any (b :: es))

namespace Rerooted

variable {root name : String} {a b : Expr}

/-- What the first reads besides its root, the second reads as well. -/
theorem readsVar (h : Rerooted root a b) : a.ReadsVar name → b.ReadsVar name := by
  induction h with
  | literal v => exact fun hn => by cases hn
  | binding => exact fun hn => by cases hn
  | member _ _ ih | length _ ih | text _ _ ih => exact ih
  | index i _ ih => simpa using Or.imp_left ih
  | includes e _ ih => simpa using Or.imp_left ih
  | arith op e _ ih => simpa using Or.imp_left ih
  | relation op e _ ih => simpa using Or.imp_left ih
  | all es _ ih => simpa using Or.imp_left ih
  | any es _ ih => simpa using Or.imp_left ih

theorem readsBinding (h : Rerooted root a b) :
    a.ReadsBinding name → name = root ∨ b.ReadsBinding name := by
  induction h with
  | literal v => exact fun hn => by cases hn
  | binding => exact fun hn => .inl (readsBinding_binding.1 hn)
  | member _ _ ih | length _ ih | text _ _ ih => exact ih
  | index i _ ih | includes i _ ih | arith _ i _ ih | relation _ i _ ih =>
    simp only [readsBinding_index, readsBinding_includes, readsBinding_arith, readsBinding_relation]
    tauto
  | all es _ ih | any es _ ih =>
    simp only [readsBinding_all, readsBinding_any]
    tauto

end Rerooted

end Archipelago.Expr
