import Archipelago.Proofs.Store.Coherent
import Archipelago.Store.Kept

/-!
# Runs of calls on a store

What a list of declarations builds, and what becomes of it under any calls that write, be they
successful or not.
-/

namespace Archipelago

namespace VariableDecl

/-- The variables that a computed declaration reads. -/
def reads (limits : EvalLimits) (d : VariableDecl) : List String :=
  match d.type, d.expression with
  | .computed, some src =>
    match Expr.parse limits src with
    | .ok e => e.dependencies
    | .error _ => []
  | _, _ => []

/-- Each computed variable reads only what is declared in front of it or nowhere. -/
def ReadBackward (limits : EvalLimits) (ds : List VariableDecl) : Prop :=
  ∀ i : Fin ds.length, ∀ dep ∈ ds[i].reads limits,
    dep ∈ (ds.take i).map (·.name) ∨ dep ∉ ds.map (·.name)

instance (limits : EvalLimits) (ds : List VariableDecl) : Decidable (ReadBackward limits ds) := by
  unfold ReadBackward; infer_instance

theorem ReadBackward.at_split {limits : EvalLimits} {before after : List VariableDecl}
    {d : VariableDecl} (h : ReadBackward limits (before ++ d :: after)) {dep : String}
    (hd : dep ∈ d.reads limits) :
    dep ∈ before.map (·.name) ∨ dep ∉ (before ++ d :: after).map (·.name) := by
  have := h ⟨before.length, by simp⟩ dep (by simpa using hd)
  simpa using this

end VariableDecl

namespace Store

/-- A call that writes. -/
inductive Call where
  | apply (ws : List Write)
  | set (name : String) (value : Value)
  | reset (name : String)

/-! ## Declarations in a row -/

/-- The declarations of a store, in order. -/
def decls (s : Store) : Dict VariableDecl := Dict.mapValues (·.decl) s.vars

theorem decls_eq {s t : Store} (h : s.frame = t.frame) : s.decls = t.decls := by
  have hd : ∀ s : Store, Dict.mapValues (·.decl) s.frame.vars = s.decls := fun s => by
    simp [frame, decls, Dict.mapValues]
  rw [← hd, h, hd]

theorem get?_decls {s : Store} {name : String} {v : Variable} (h : Dict.get? s.vars name = some v) :
    Dict.get? s.decls name = some v.decl := by
  rw [decls, Dict.get?_mapValues, h, Option.map_some]

theorem keys_decls (s : Store) : Dict.keys s.decls = s.names := Dict.keys_mapValues _ _

/-- The names that a variable depends on are those that its declaration reads. -/
theorem Coherent.dependencies_eq {s : Store} (hs : s.Coherent) {name : String} {v : Variable}
    (hv : Dict.get? s.vars name = some v) : v.dependencies = v.decl.reads s.limits := by
  have hp := hs.parsed name v hv
  unfold Variable.dependencies VariableDecl.reads
  cases he : v.expr with
  | some e =>
    rw [he] at hp
    obtain ⟨ht, src, hx, hparse⟩ := parseComputed_eq_some hp
    simp [ht, hx, hparse]
  | none =>
    rw [he] at hp
    have ht := parseComputed_eq_none hp
    split
    · contradiction
    · split
      · rename_i ht' _
        exact absurd ht' ht
      · rfl

/-- Variables declared in front of others: what the empty store is, and what each declaration
keeps. -/
structure DeclaredAs (s : Store) (ds : List VariableDecl) : Prop where
  coherent : s.Coherent
  decls : s.decls = ds.map fun d => (d.name, d)

namespace DeclaredAs

variable {load : String → Option String} {s s' : Store} {ds : List VariableDecl}

theorem names (h : s.DeclaredAs ds) : s.names = ds.map (·.name) := by
  rw [← keys_decls, h.decls, Dict.keys, List.map_map]
  rfl

theorem blank (hv : s.vars = []) (ho : s.computedOrder = []) : s.DeclaredAs [] where
  coherent :=
    { nodup := by simp [Store.names, hv, Dict.keys]
      named := fun name v h => by simp [hv] at h
      parsed := fun name v h => by simp [hv] at h
      order := by rw [hv, ho]; rfl }
  decls := by simp [Store.decls, hv, Dict.mapValues]

theorem of_frame {t : Store} (h : s.DeclaredAs ds) (hf : s.frame = t.frame) : t.DeclaredAs ds where
  coherent := h.coherent.of_frame hf
  decls := by rw [← decls_eq hf, h.decls]

theorem declare {d : VariableDecl} (h : s.DeclaredAs ds) (hd : s.declare load d = .ok s') :
    s'.DeclaredAs (ds ++ [d]) ∧ s'.limits = s.limits ∧ s'.resident = s.resident := by
  obtain ⟨hn, expr, value, order, hp, -, ho, rfl⟩ := declare_eq_ok h.coherent hd
  have hf := frame_recomputed (s.extend ⟨d, value, expr⟩ order) d.name
  refine ⟨⟨h.coherent.declare hd, ?_⟩, (limits_eq hf : _), (resident_eq hf : _)⟩
  rw [decls_eq hf, List.map_append, ← h.decls]
  simp [Store.decls, extend, Dict.mapValues]

theorem declareAll {more : List VariableDecl} (h : s.DeclaredAs ds)
    (hd : s.declareAll load more = .ok s') :
    s'.DeclaredAs (ds ++ more) ∧ s'.limits = s.limits ∧ s'.resident = s.resident := by
  induction more generalizing s ds with
  | nil =>
    obtain rfl : s = s' := Except.ok.inj hd
    exact ⟨by simpa using h, rfl, rfl⟩
  | cons d more ih =>
    obtain ⟨t, ht, hd⟩ := bind_eq_ok.1 hd
    have hfirst := h.declare ht
    have hrest := ih hfirst.1 hd
    exact ⟨by simpa using hrest.1, hrest.2.1.trans hfirst.2.1, hrest.2.2.trans hfirst.2.2⟩

/-- Each variable is one of the declared ones, under its name. -/
theorem mem_of_get? (h : s.DeclaredAs ds) {name : String} {v : Variable}
    (hv : Dict.get? s.vars name = some v) : v.decl ∈ ds ∧ v.decl.name = name := by
  have hm := Dict.mem_of_get? (get?_decls hv)
  rw [h.decls] at hm
  obtain ⟨d, hd, he⟩ := List.mem_map.1 hm
  obtain ⟨rfl, rfl⟩ := Prod.mk.inj he
  exact ⟨hd, rfl⟩

/-- Each declared variable is there. -/
theorem get?_of_mem (h : s.DeclaredAs ds) {d : VariableDecl} (hd : d ∈ ds) :
    ∃ v, Dict.get? s.vars d.name = some v ∧ v.decl = d := by
  have hm : (d.name, d) ∈ s.decls := by
    rw [h.decls]
    exact List.mem_map_of_mem hd
  have hn : (Dict.keys s.decls).Nodup := by rw [keys_decls]; exact h.coherent.nodup
  have hg := Dict.get?_of_mem hn hm
  rw [Store.decls, Dict.get?_mapValues] at hg
  exact Option.map_eq_some_iff.1 hg

end DeclaredAs

end Store

namespace KeptStore

open Store (Call)

/-- Goes on from a batch; a failed one leaves the store and the texts kept as they are. -/
def goOn (k : KeptStore) : Except StoreError (Store × Commit) → KeptStore
  | .ok (s, c) => k.keep s c.saves
  | .error _ => k

/-- What a call makes of a store; one that fails leaves it as it is. -/
def call (k : KeptStore) : Call → KeptStore
  | .apply ws => k.goOn (k.store.apply ws)
  | .set name value => k.goOn (k.store.set name value)
  | .reset name => k.goOn (k.store.reset name)

/-- Makes the calls, first to last. -/
def run (k : KeptStore) (calls : List Call) : KeptStore := calls.foldl call k

/-- What every batch preserves holds after any run. -/
theorem run_preserves {P : Store → Prop}
    (hP : ∀ s s' ws c, P s → s.apply ws = .ok (s', c) → P s') {k : KeptStore} (h : P k.store)
    (calls : List Call) : P (k.run calls).store := by
  have hgo : ∀ k : KeptStore, P k.store → ∀ ws, P (k.goOn (k.store.apply ws)).store := by
    intro k hk ws
    cases he : k.store.apply ws with
    | error e => exact hk
    | ok r => exact hP k.store r.1 ws r.2 hk he
  induction calls generalizing k with
  | nil => exact h
  | cons c calls ih =>
    refine ih ?_
    cases c with
    | apply ws => exact hgo k h ws
    | set name value => exact hgo k h [.set name value]
    | reset name => exact hgo k h [.reset name]

end KeptStore

end Archipelago
