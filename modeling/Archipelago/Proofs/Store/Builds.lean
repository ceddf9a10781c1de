import Archipelago.Proofs.Compile.Extract
import Archipelago.Proofs.Store.Calls

/-!
# Declarations of a template build a store

A compilation keeps a declaration only if its initial value is one of its type, and if all that it
reads is declared in front of it or is on a cycle. What is on a cycle is never declared as computed.
Hence the computed variables are in order as they come, and nothing stands in the way of a store.
-/

namespace Archipelago

open Compile (Rules Declarable Declares Started)
open Dependency (Graph)

namespace VarType

theorem exists_coerce_zero {t : VarType} (h : t.isReadOnly = false) (name : String) :
    ∃ v, t.coerce name t.zero = .ok v := by
  cases t with
  | computed | urlParam => cases h
  | number | string | boolean | array | object => exact ⟨_, rfl⟩

theorem exists_coerce_parseInitial {t : VarType} {text : String} {v : Value}
    (h : t.isReadOnly = false) (hv : t.parseInitial text = some v) (name : String) :
    ∃ w, t.coerce name v = .ok w := by
  cases t with
  | computed | urlParam => cases h
  | number =>
    obtain ⟨x, -, rfl⟩ := Option.map_eq_some_iff.1 hv
    exact ⟨_, rfl⟩
  | string =>
    obtain rfl := Option.some.inj hv
    exact ⟨_, rfl⟩
  | boolean =>
    unfold parseInitial at hv
    dsimp only at hv
    split at hv
    · obtain rfl := Option.some.inj hv
      exact ⟨_, rfl⟩
    · split at hv
      · obtain rfl := Option.some.inj hv
        exact ⟨_, rfl⟩
      · cases hv
  | array =>
    unfold parseInitial at hv
    dsimp only at hv
    split at hv
    · obtain rfl := Option.some.inj hv
      exact ⟨_, rfl⟩
    · cases hv
  | object =>
    unfold parseInitial at hv
    dsimp only at hv
    split at hv
    · obtain rfl := Option.some.inj hv
      exact ⟨_, rfl⟩
    · obtain rfl := Option.some.inj hv
      exact ⟨_, rfl⟩
    · cases hv

end VarType

namespace Store

variable {s : Store} {d : VariableDecl}

theorem parseComputed_of_ne (s : Store) (h : d.type ≠ .computed) :
    s.parseComputed d = .ok none := by
  unfold parseComputed
  split
  · rename_i htype _
    exact absurd htype h
  · rename_i htype _
    exact absurd htype h
  · rfl

theorem parseComputed_of_eq {src : String} {e : Expr} (h : d.type = .computed)
    (hsrc : d.expression = some src) (he : Expr.parse s.limits src = .ok e) :
    s.parseComputed d = .ok (some e) := by
  unfold parseComputed
  rw [h, hsrc]
  dsimp only
  rw [he]

/-- A declaration that is started well has a value to start with, whatever is stored. -/
theorem exists_startValue (s : Store) (load : String → Option String) (h : Started d) :
    ∃ v, s.startValue load d = .ok v := by
  have hcoerce (hread : d.type.isReadOnly = false) :
    ∃ v, d.type.coerce d.name d.initial = .ok v := by
    unfold Started at h
    rw [if_neg (by rintro he; rw [he] at hread; cases hread)] at h
    rcases h with hzero | ⟨text, htext⟩
    · rw [hzero]
      exact VarType.exists_coerce_zero hread _
    · exact VarType.exists_coerce_parseInitial hread htext _
  unfold startValue
  cases htype : d.type with
  | computed => exact ⟨_, rfl⟩
  | urlParam => exact ⟨_, rfl⟩
  | number | string | boolean | array | object =>
    obtain ⟨v, hv⟩ := hcoerce (by rw [htype]; rfl)
    rw [htype] at hv
    dsimp only
    rw [hv]
    exact ⟨_, rfl⟩

/-- The computed variables are in the order of their declarations, and they read nothing that is
still to be declared as computed. -/
structure InOrder (r : Rules) (s : Store) : Prop where
  sorted : (graph s.vars).Sorted (Dict.keys (graph s.vars))
  reads : ∀ e ∈ graph s.vars, ∀ dep ∈ e.2, dep ∈ s.names ∨ dep ∈ r.cyclic

namespace InOrder

variable {r : Rules} {known : String → Prop}

theorem of_graph {t : Store} (h : InOrder r s) (hg : graph t.vars = graph s.vars)
    (hn : ∀ name ∈ s.names, name ∈ t.names) : InOrder r t where
  sorted := hg ▸ h.sorted
  reads e he dep hdep := (h.reads e (hg ▸ he) dep hdep).imp_left (hn dep)

/-- A computed variable that reads nothing new comes behind the others. -/
theorem extend (h : InOrder r s) {v : Variable} (order : List String) (hn : v.decl.name ∉ s.names)
    (hd : Declarable r (fun dep => dep ∈ s.names ∨ dep ∈ r.cyclic) v.decl)
    (hlimits : s.limits = r.eval) (hp : s.parseComputed v.decl = .ok v.expr) :
    InOrder r (s.extend v order) := by
  have hnames : ∀ name ∈ s.names, name ∈ (s.extend v order).names := fun name hm => by
    rw [names, Store.extend, Dict.keys, List.map_append]
    exact List.mem_append_left _ hm
  cases he : v.expr with
  | none =>
    refine h.of_graph ?_ hnames
    rw [Store.extend, graph_append]
    simp [graph, he]
  | some e =>
    rw [he] at hp
    obtain ⟨htype, src, hsrc, hparse⟩ := parseComputed_eq_some hp
    obtain ⟨hacyclic, src', e', hsrc', hparse', hreads⟩ := hd.computed htype
    obtain rfl : src = src' := Option.some.inj (hsrc.symm.trans hsrc')
    obtain rfl : e = e' := Except.ok.inj ((hlimits ▸ hparse).symm.trans hparse')
    have hgraph : graph (s.extend v order).vars =
        graph s.vars ++ [(v.decl.name, e.dependencies)] := by
      rw [Store.extend, graph_append]
      simp [graph, he, Variable.dependencies]
    have hdeps : ∀ dep ∈ e.dependencies, dep ∈ s.names ∨ dep ∈ r.cyclic := fun dep hdep =>
      hreads dep (Expr.mem_dependencies.1 hdep)
    have hfresh : ∀ deps : List String, (∀ dep ∈ deps, dep ∈ s.names ∨ dep ∈ r.cyclic) →
        v.decl.name ∉ deps := fun deps hall hm => (hall _ hm).elim hn hacyclic
    refine ⟨?_, fun f hf dep hdep => ?_⟩
    · rw [hgraph]
      refine h.sorted.snoc (fun hm => hn ((keys_graph_sublist s.vars).subset hm)) ?_ fun f hf => ?_
      · exact hfresh _ hdeps
      · exact hfresh _ (h.reads f hf)
    · rw [hgraph] at hf
      rcases List.mem_append.1 hf with hf | hf
      · exact (h.reads f hf dep hdep).imp_left (hnames dep)
      · obtain rfl := List.mem_singleton.1 hf
        exact (hdeps dep hdep).imp_left (hnames dep)

/-- Nothing stands in the way of a declaration that a compilation keeps. -/
theorem declare (h : InOrder r s) (hs : s.Coherent) (load : String → Option String)
    (hn : d.name ∉ s.names) (hd : Declarable r (fun dep => dep ∈ s.names ∨ dep ∈ r.cyclic) d)
    (hlimits : s.limits = r.eval) : ∃ s', s.declare load d = .ok s' ∧ InOrder r s' := by
  obtain ⟨expr, hp⟩ : ∃ expr, s.parseComputed d = .ok expr := by
    by_cases htype : d.type = .computed
    · obtain ⟨-, src, e, hsrc, hparse, -⟩ := hd.computed htype
      exact ⟨_, parseComputed_of_eq htype hsrc (hlimits ▸ hparse)⟩
    · exact ⟨_, s.parseComputed_of_ne htype⟩
  obtain ⟨value, hvalue⟩ := s.exists_startValue load hd.started
  have hext := fun order => h.extend (v := ⟨d, value, expr⟩) order hn hd hlimits hp
  have hnodup : (Dict.keys (Dict.insert s.vars d.name (⟨d, value, expr⟩ : Variable))).Nodup :=
    Dict.nodup_keys_insert hs.nodup
  rw [Dict.insert_of_notMem hn] at hnodup
  have horder := Graph.order_of_sorted (hnodup.sublist (keys_graph_sublist _)) (hext []).sorted
  obtain ⟨s', hs'⟩ := exists_declare hn hp hvalue horder
  refine ⟨s', hs', ?_⟩
  obtain ⟨-, expr', value', order, hp', -, -, rfl⟩ := declare_eq_ok hs hs'
  have hold := h.extend (v := ⟨d, value', expr'⟩) order hn hd hlimits hp'
  have hframe := frame_recomputed (s.extend ⟨d, value', expr'⟩ order) d.name
  refine hold.of_graph ?_ fun name hm => names_eq hframe ▸ hm
  rw [← graph_frame, hframe, graph_frame]

end InOrder

theorem declareAll_append (load : String → Option String) (s : Store) (ds es : List VariableDecl) :
    s.declareAll load (ds ++ es) = (s.declareAll load ds).bind (·.declareAll load es) := by
  induction ds generalizing s with
  | nil => rfl
  | cons d ds ih =>
    show (s.declare load d).bind _ = ((s.declare load d).bind _).bind _
    cases s.declare load d with
    | error e => rfl
    | ok t => exact ih t

/-- Declarations that a compilation keeps can all be carried out. -/
theorem exists_declareAll {r : Rules} {declared : Dict VariableDecl} (h : Declares r [] declared)
    (load : String → Option String) (hvars : s.vars = []) (horder : s.computedOrder = [])
    (hlimits : s.limits = r.eval) :
    ∃ s', s.declareAll load (declared.map (·.2)) = .ok s' ∧ s'.names = Dict.keys declared ∧
      InOrder r s' := by
  induction h with
  | refl =>
    refine ⟨s, rfl, by rw [names, hvars]; rfl, ⟨?_, ?_⟩⟩
    · rw [hvars]
      exact Graph.sorted_nil _
    · rw [hvars]
      exact fun e he => absurd he List.not_mem_nil
  | @snoc ds d _ hn hd ih =>
    obtain ⟨t, ht, hnames, hinorder⟩ := ih
    obtain ⟨hdeclared, hlimits', -⟩ := (DeclaredAs.blank hvars horder).declareAll ht
    rw [← hnames] at hn hd
    obtain ⟨s', hs', hinorder'⟩ :=
      hinorder.declare hdeclared.coherent load hn hd (hlimits'.trans hlimits)
    refine ⟨s', ?_, ?_, hinorder'⟩
    · rw [List.map_append, declareAll_append, ht]
      show (t.declare load d).bind _ = _
      rw [hs']
      rfl
    · have hnext := (hdeclared.declare hs').1.names
      rw [hnext, List.map_append, ← hdeclared.names, hnames, Dict.keys, Dict.keys, List.map_append]
      rfl

/-- The declarations of a compiled template can all be carried out in a store that has none. -/
theorem exists_declareAll_of_compile {c : Config} {src : String} {t : Template}
    (h : (compile c src).template? = some t) (load : String → Option String) (hvars : s.vars = [])
    (horder : s.computedOrder = []) (hlimits : s.limits = c.eval) :
    ∃ s', s.declareAll load t.decls = .ok s' ∧ s'.DeclaredAs t.decls := by
  obtain ⟨raw, nodes, declared, -, -, -, hdeclares, hdecls, -⟩ := Compile.exists_tree h
  obtain ⟨s', hs', -, -⟩ := exists_declareAll hdeclares load hvars horder hlimits
  rw [← hdecls] at hs'
  exact ⟨s', hs', ((DeclaredAs.blank hvars horder).declareAll hs').1⟩

/-- A compiled template has a store, whatever the address, the resident and the storage say. What
cannot be loaded is as good as what was never stored. -/
theorem builds_of_compile {c : Config} {src : String} {t : Template}
    (h : (compile c src).template? = some t) (params : Dict String) (resident : Value)
    (scope : String) (load : String → Option String) :
    ∃ s, declareAll load { params, resident, scope, limits := c.eval } t.decls = .ok s ∧
      s.DeclaredAs t.decls :=
  exists_declareAll_of_compile h load rfl rfl rfl

/-- A variable that is kept, one of the address, and one that is computed within a condition. -/
def cellarMarkup : String :=
  "<Var name=\"n\" initial=\"old\" persist/><Var name=\"who\" type=\"urlParam\"/>"
    ++ "<If var=\"who\"><Var name=\"again\" type=\"computed\" expression=\"$vars.n\"/></If>"

/-- What this markup is compiled by under the default settings. -/
def cellarRules : Rules := ⟨{}, {}, 100, []⟩

/-- The variables are there though the storage refuses to load and to save. -/
theorem builds_cellar :
    ∃ t s, (compile {} cellarMarkup).template? = some t ∧
      declareAll (KeptStore.load ⟨{}, some (.memory {} true true)⟩)
        { params := [("who", "you")], limits := ({} : Config).eval } t.decls = .ok s ∧
      s.DeclaredAs t.decls ∧ t.decls.map (·.name) = ["n", "who", "again"] := by
  have hraw : (Markup.parse 64 cellarMarkup).toOption.map (fun raw =>
      decide (Compile.computedGraph raw = [("again", ["n"])])) = some true := by
    decide +kernel
  have ht : ((Markup.parse 64 cellarMarkup).toOption.bind fun raw =>
      (Compile.byRules cellarRules (Compile.templateId cellarMarkup) raw).template?.map fun t =>
        decide (t.decls.map (·.name) = ["n", "who", "again"])) = some true := by
    decide +kernel
  obtain ⟨raw, hparse, hgraph⟩ := Option.map_eq_some_iff.1 hraw
  rw [hparse, Option.bind_some] at ht
  have hcyclic : Graph.cyclic [("again", ["n"])] = [] := by
    simp [Graph.cyclic, Graph.reaches, Dict.keys, Dict.get?]
  have hrules : Compile.rules {} raw = cellarRules := by
    rw [Compile.rules, of_decide_eq_true hgraph, hcyclic]
    rfl
  have hsize : cellarMarkup.utf8ByteSize ≤ 524288 := by decide +kernel
  rw [← hrules, ← Compile.compile_eq_byRules (c := {}) hsize (toOption_eq_some.1 hparse)] at ht
  obtain ⟨t, htemplate, ht⟩ := Option.map_eq_some_iff.1 ht
  obtain ⟨s, hs, hdeclared⟩ := builds_of_compile htemplate [("who", "you")] .undefined "default"
    (KeptStore.load ⟨{}, some (.memory {} true true)⟩)
  exact ⟨t, s, htemplate, hs, hdeclared, of_decide_eq_true ht⟩

end Store

end Archipelago
