import Archipelago.Proofs.Store.Atomic
import Archipelago.Proofs.Store.Fresh

/-!
# Declarations that are made once more

Whether a declaration is refused is a matter of names, expressions and initial values. So of the
same declarations the same ones are carried out in another store, whatever is stored and whatever
the address has. A variable that can be written starts with what is stored for it, or else with its
initial value, and no later declaration touches it.
-/

namespace Archipelago

namespace Store

variable {load load' : String → Option String} {s s' t : Store} {d : VariableDecl}

/-! ## What a variable starts with -/

theorem startValue_of_writable (s : Store) (load : String → Option String)
    (h : d.type.isReadOnly = false) :
    s.startValue load d = (d.type.coerce d.name d.initial).map fun initial =>
      if d.persist then (persisted? load d).getD initial else initial := by
  unfold startValue
  cases htype : d.type with
  | computed | urlParam => rw [htype] at h; cases h
  | number | string | boolean | array | object =>
    dsimp only
    cases VarType.coerce _ d.name d.initial <;> rfl

/-- A variable that can be written holds what it starts with where this is loaded. -/
def Seeded (load : String → Option String) (v : Variable) : Prop :=
  ∃ initial, v.decl.type.coerce v.decl.name v.decl.initial = .ok initial ∧
    v.value = if v.decl.persist then (persisted? load v.decl).getD initial else initial

/-- A variable that can be written is put in with the value that it starts with. -/
theorem seeded_declare (hs : s.Coherent) (h : s.declare load d = .ok s')
    (hwritable : d.type.isReadOnly = false) {v : Variable}
    (hv : Dict.get? s'.vars d.name = some v) : Seeded load v := by
  obtain ⟨hn, expr, value, order, hp, hvalue, -, rfl⟩ := declare_eq_ok hs h
  have hself := get?_extend_self order (v := ⟨d, value, expr⟩) hn
  cases expr with
  | some e =>
    rw [(parseComputed_eq_some hp).1] at hwritable
    cases hwritable
  | none =>
    have hsame : (s.extend ⟨d, value, none⟩ order).recomputed d.name =
        s.extend ⟨d, value, none⟩ order := by
      rw [recomputed, recompute?, hself]
      rfl
    rw [hsame, hself] at hv
    obtain rfl := Option.some.inj hv
    rw [startValue_of_writable s load hwritable] at hvalue
    obtain ⟨initial, hinitial, hvalue⟩ := map_eq_ok.1 hvalue
    exact ⟨initial, hinitial, hvalue.symm⟩

theorem base_declare (hs : s.Coherent) (h : s.declare load d = .ok s') :
    s'.scope = s.scope ∧ s'.limits = s.limits := by
  obtain ⟨-, expr, value, order, -, -, -, rfl⟩ := declare_eq_ok hs h
  have hframe := frame_recomputed (s.extend ⟨d, value, expr⟩ order) d.name
  exact ⟨(scope_eq hframe :), (limits_eq hframe :)⟩

/-! ## Another store -/

/-- Two stores with the same variables but for their values. -/
structure Alike (s t : Store) : Prop where
  vars : s.frame.vars = t.frame.vars
  limits : s.limits = t.limits

namespace Alike

theorem symm (h : s.Alike t) : t.Alike s := ⟨h.vars.symm, h.limits.symm⟩

theorem names (h : s.Alike t) : s.names = t.names := by
  have hnames : s.frame.names = t.frame.names := congrArg Dict.keys h.vars
  rwa [names_frame, names_frame] at hnames

theorem get? (h : s.Alike t) {name : String} {v : Variable} (hv : Dict.get? s.vars name = some v) :
    ∃ w, Dict.get? t.vars name = some w ∧ w.decl = v.decl := by
  have hbare : (Dict.get? t.vars name).map Variable.bare = some v.bare := by
    rw [← get?_frame, ← h.vars, get?_frame, hv, Option.map_some]
  obtain ⟨w, hw, heq⟩ := Option.map_eq_some_iff.1 hbare
  exact ⟨w, hw, (congrArg Variable.decl heq :)⟩

theorem graph_eq (h : s.Alike t) : graph s.vars = graph t.vars := by
  rw [← graph_frame, h.vars, graph_frame]

theorem extend (h : s.Alike t) (d : VariableDecl) (expr : Option Expr) (value value' : Value)
    (order order' : List String) :
    (s.extend ⟨d, value, expr⟩ order).Alike (t.extend ⟨d, value', expr⟩ order') where
  vars := by
    show Dict.mapValues Variable.bare (s.vars ++ _) = Dict.mapValues Variable.bare (t.vars ++ _)
    have hvars : Dict.mapValues Variable.bare s.vars = Dict.mapValues Variable.bare t.vars := h.vars
    rw [Dict.mapValues, List.map_append, ← Dict.mapValues, hvars, Dict.mapValues, Dict.mapValues,
      List.map_append]
    rfl
  limits := h.limits

theorem recomputed (h : s.Alike t) (name : String) :
    (s.recomputed name).Alike (t.recomputed name) where
  vars := by rw [frame_recomputed, frame_recomputed, h.vars]
  limits := by
    rw [limits_eq (frame_recomputed s name), limits_eq (frame_recomputed t name), h.limits]

/-- What can be declared in one of them can be declared in the other. -/
theorem declare (h : s.Alike t) (hs : s.Coherent) (ht : t.Coherent) (hd : s.declare load d = .ok s')
    (load' : String → Option String) : ∃ t', t.declare load' d = .ok t' ∧ s'.Alike t' := by
  obtain ⟨hn, expr, value, order, hp, hvalue, horder, rfl⟩ := declare_eq_ok hs hd
  obtain ⟨value', hvalue'⟩ : ∃ value', t.startValue load' d = .ok value' := by
    cases hwritable : d.type.isReadOnly with
    | false =>
      rw [startValue_of_writable s load hwritable] at hvalue
      obtain ⟨initial, hinitial, -⟩ := map_eq_ok.1 hvalue
      rw [startValue_of_writable t load' hwritable, hinitial]
      exact ⟨_, rfl⟩
    | true =>
      unfold startValue
      cases htype : d.type with
      | computed | urlParam => exact ⟨_, rfl⟩
      | number | string | boolean | array | object => rw [htype] at hwritable; cases hwritable
  rw [parseComputed_congr h.limits] at hp
  have horder' := (h.extend d expr value value' order order).graph_eq ▸ horder
  obtain ⟨t', ht'⟩ := exists_declare (h.names ▸ hn) hp hvalue' horder'
  refine ⟨t', ht', ?_⟩
  obtain ⟨-, expr', value'', order', hp', -, -, rfl⟩ := declare_eq_ok ht ht'
  obtain rfl : expr = expr' := Except.ok.inj (hp.symm.trans hp')
  exact (h.extend d expr value value'' order order').recomputed d.name

end Alike

end Store

namespace LiveStore

variable {l l' : LiveStore} {d : VariableDecl}

/-- Declares a variable, or passes it over if it is refused. -/
def declareOr (l : LiveStore) (d : VariableDecl) : LiveStore := ((declare d).run l).2

/-- Declares the variables, first to last, and passes those over that are refused. -/
def declareEach (l : LiveStore) (ds : List VariableDecl) : LiveStore := ds.foldl declareOr l

theorem declareOr_eq (l : LiveStore) (d : VariableDecl) :
    (∃ s, l.kept.store.declare l.kept.load d = .ok s ∧ l.declareOr d = l.withStore s) ∨
      (∃ e, l.kept.store.declare l.kept.load d = .error e) ∧ l.declareOr d = l := by
  unfold declareOr
  rw [run_declare]
  cases l.kept.store.declare l.kept.load d with
  | ok s => exact .inl ⟨s, rfl, rfl⟩
  | error e => exact .inr ⟨⟨e, rfl⟩, rfl⟩

theorem coherent_declareOr (h : l.kept.store.Coherent) (d : VariableDecl) :
    (l.declareOr d).kept.store.Coherent := by
  obtain ⟨s, hs, heq⟩ | ⟨-, heq⟩ := l.declareOr_eq d
  · rw [heq]
    exact h.declare hs
  · rw [heq]
    exact h

/-- A store under the same scope, with the same limits and over the same storage. -/
structure SameBase (l l' : LiveStore) : Prop where
  storage : l'.kept.storage = l.kept.storage
  scope : l'.kept.store.scope = l.kept.store.scope
  limits : l'.kept.store.limits = l.kept.store.limits

namespace SameBase

theorem load_eq (h : SameBase l l') : l'.kept.load = l.kept.load := by
  unfold KeptStore.load
  rw [h.storage, h.scope]

theorem declareOr (h : l.kept.store.Coherent) (d : VariableDecl) : SameBase l (l.declareOr d) := by
  obtain ⟨s, hs, heq⟩ | ⟨-, heq⟩ := l.declareOr_eq d
  · obtain ⟨hscope, hlimits⟩ := Store.base_declare h hs
    rw [heq]
    exact ⟨rfl, hscope, hlimits⟩
  · rw [heq]
    exact ⟨rfl, rfl, rfl⟩

theorem declareEach (h : l.kept.store.Coherent) (ds : List VariableDecl) :
    SameBase l (l.declareEach ds) := by
  induction ds generalizing l with
  | nil => exact ⟨rfl, rfl, rfl⟩
  | cons d ds ih =>
    have hfirst := declareOr h d
    have hrest := ih (coherent_declareOr h d)
    exact ⟨hrest.storage.trans hfirst.storage, hrest.scope.trans hfirst.scope,
      hrest.limits.trans hfirst.limits⟩

end SameBase

/-- A store in order, each variable of which that can be written holds what it starts with. -/
structure New (l : LiveStore) : Prop where
  coherent : l.kept.store.Coherent
  seeded : ∀ name v, Dict.get? l.kept.store.vars name = some v → v.decl.type.isReadOnly = false →
    Store.Seeded l.kept.load v

namespace New

theorem blank (hvars : l.kept.store.vars = []) (horder : l.kept.store.computedOrder = []) :
    l.New where
  coherent := (Store.DeclaredAs.blank hvars horder).coherent
  seeded name v hv := by
    rw [hvars] at hv
    cases hv

theorem declareOr (h : l.New) (d : VariableDecl) : (l.declareOr d).New := by
  refine ⟨coherent_declareOr h.coherent d, fun name v hv hwritable => ?_⟩
  rw [(SameBase.declareOr h.coherent d).load_eq]
  obtain ⟨s, hs, heq⟩ | ⟨-, heq⟩ := l.declareOr_eq d
  · rw [heq] at hv
    by_cases hname : d.name = name
    · subst hname
      have hdecl : v.decl = d := by
        obtain ⟨hn, expr, value, order, -, -, -, rfl⟩ := Store.declare_eq_ok h.coherent hs
        have hself := Store.get?_extend_self order (v := ⟨d, value, expr⟩) hn
        obtain ⟨w, hw, hdecl, -⟩ := Store.get?_of_frame (Store.frame_recomputed _ _).symm hself
        exact Option.some.inj (hv.symm.trans hw) ▸ hdecl.symm
      exact Store.seeded_declare h.coherent hs (hdecl ▸ hwritable) hv
    · exact h.seeded name v ((Store.get?_declare_of_ne h.coherent hs hname).symm.trans hv) hwritable
  · rw [heq] at hv
    exact h.seeded name v hv hwritable

theorem declareEach (h : l.New) (ds : List VariableDecl) : (l.declareEach ds).New := by
  induction ds generalizing l with
  | nil => exact h
  | cons d ds ih => exact ih (h.declareOr d)

end New

/-- The same declarations make the same variables. -/
theorem alike_declareEach (h : l.kept.store.Alike l'.kept.store) (hl : l.New) (hl' : l'.New)
    (ds : List VariableDecl) :
    (l.declareEach ds).kept.store.Alike (l'.declareEach ds).kept.store := by
  induction ds generalizing l l' with
  | nil => exact h
  | cons d ds ih =>
    refine ih ?_ (hl.declareOr d) (hl'.declareOr d)
    obtain ⟨s, hs, heq⟩ | ⟨⟨e, he⟩, heq⟩ := l.declareOr_eq d
    · obtain ⟨t, ht, halike⟩ := h.declare hl.coherent hl'.coherent hs l'.kept.load
      obtain ⟨t', ht', heq'⟩ | ⟨⟨e, he⟩, -⟩ := l'.declareOr_eq d
      · obtain rfl := Except.ok.inj (ht.symm.trans ht')
        rw [heq, heq']
        exact halike
      · rw [ht] at he
        cases he
    · obtain ⟨t, ht, -⟩ | ⟨-, heq'⟩ := l'.declareOr_eq d
      · obtain ⟨s, hs, -⟩ := h.symm.declare hl'.coherent hl.coherent ht l.kept.load
        rw [hs] at he
        cases he
      · rw [heq, heq']
        exact h

end LiveStore

end Archipelago
