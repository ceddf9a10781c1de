import Archipelago.Proofs.Dependency.Order
import Archipelago.Proofs.Store.Frame

/-!
# Stores that come from declarations

What declaring establishes and no write touches: names are unique, expressions are those of the
declarations, and the order of the computed variables is that of their graph.
-/

namespace Archipelago.Store

open Dependency (Graph)

/-- What holds of the parts of a store together. -/
structure Coherent (s : Store) : Prop where
  nodup : s.names.Nodup
  named : ∀ name v, Dict.get? s.vars name = some v → v.decl.name = name
  parsed : ∀ name v, Dict.get? s.vars name = some v → s.parseComputed v.decl = .ok v.expr
  order : (graph s.vars).order = .ok s.computedOrder

theorem parseComputed_congr {s t : Store} (h : s.limits = t.limits) (d : VariableDecl) :
    s.parseComputed d = t.parseComputed d := by
  unfold parseComputed
  rw [h]

/-- A declaration has an expression if it is computed and its text is one. -/
theorem parseComputed_eq_some {s : Store} {d : VariableDecl} {e : Expr}
    (h : s.parseComputed d = .ok (some e)) :
    d.type = .computed ∧ ∃ src, d.expression = some src ∧ Expr.parse s.limits src = .ok e := by
  unfold parseComputed at h
  split at h
  · rename_i src ht hx
    split at h
    · rename_i e' he
      obtain rfl : e' = e := Option.some.inj (Except.ok.inj h)
      exact ⟨ht, src, hx, he⟩
    · simp at h
  · simp at h
  · simp at h

theorem parseComputed_eq_none {s : Store} {d : VariableDecl} (h : s.parseComputed d = .ok none) :
    d.type ≠ .computed := by
  intro ht
  unfold parseComputed at h
  rw [ht] at h
  split at h
  · split at h <;> simp at h
  · simp at h
  · rename_i h₁ h₂
    cases hx : d.expression with
    | none => exact h₂ rfl hx
    | some src => exact h₁ src rfl hx

/-! ## The graph of the computed variables -/

theorem graph_append (vars more : Dict Variable) :
    graph (vars ++ more) = graph vars ++ graph more := by
  simp [graph]

theorem graph_frame (s : Store) : graph s.frame.vars = graph s.vars := by
  simp only [graph, frame, Dict.mapValues, List.filter_map, List.map_map]
  rfl

theorem keys_graph_sublist (vars : Dict Variable) :
    (Dict.keys (graph vars)).Sublist (Dict.keys vars) := by
  have h : Dict.keys (graph vars) = Dict.keys (vars.filter fun e => e.2.expr.isSome) := by
    simp [Dict.keys, graph]
  rw [h]
  exact List.filter_sublist.map _

/-- The graph has a computed variable with all that it reads. -/
theorem get?_graph {vars : Dict Variable} (hn : (Dict.keys vars).Nodup) {name : String}
    {v : Variable} (hv : Dict.get? vars name = some v) (he : v.expr.isSome) :
    Dict.get? (graph vars) name = some v.dependencies := by
  refine Dict.get?_of_mem (hn.sublist (keys_graph_sublist vars)) ?_
  exact List.mem_map.2 ⟨(name, v), List.mem_filter.2 ⟨Dict.mem_of_get? hv, he⟩, rfl⟩

/-- Only computed variables are in the graph. -/
theorem expr_isSome_of_mem_graph {vars : Dict Variable} (hn : (Dict.keys vars).Nodup)
    {name : String}
    (h : name ∈ Dict.keys (graph vars)) : ∃ v, Dict.get? vars name = some v ∧ v.expr.isSome := by
  obtain ⟨e, he, rfl⟩ := List.mem_map.1 h
  obtain ⟨⟨k, v⟩, hf, rfl⟩ := List.mem_map.1 he
  obtain ⟨hm, hs⟩ := List.mem_filter.1 hf
  exact ⟨v, Dict.get?_of_mem hn hm, hs⟩

namespace Coherent

variable {s t : Store}

theorem isOrder (h : s.Coherent) : (graph s.vars).IsOrder s.computedOrder :=
  Graph.isOrder_of_order h.order

/-- Coherence is a matter of the frame. -/
theorem of_frame (h : s.Coherent) (hf : s.frame = t.frame) : t.Coherent where
  nodup := by rw [← names_eq hf]; exact h.nodup
  named name v hv := by
    obtain ⟨w, hw, hd, -⟩ := get?_of_frame hf.symm hv
    rw [hd]
    exact h.named name w hw
  parsed name v hv := by
    obtain ⟨w, hw, hd, he⟩ := get?_of_frame hf.symm hv
    have hp := h.parsed name w hw
    unfold parseComputed at hp ⊢
    rwa [← limits_eq hf, hd, he]
  order := by rw [← graph_frame, ← hf, graph_frame, ← computedOrder_eq hf]; exact h.order

theorem mem_computedOrder (h : s.Coherent) {name : String} {v : Variable}
    (hv : Dict.get? s.vars name = some v) (he : v.expr.isSome) : name ∈ s.computedOrder := by
  rw [h.isOrder.mem_iff]
  exact Dict.mem_keys_of_get? (get?_graph h.nodup hv he)

/-- A variable with an expression is read-only. -/
theorem isReadOnly_of_expr (h : s.Coherent) {name : String} {v : Variable}
    (hv : Dict.get? s.vars name = some v) (he : v.expr.isSome) : v.decl.type.isReadOnly = true := by
  obtain ⟨e, he⟩ := Option.isSome_iff_exists.1 he
  have hp := h.parsed name v hv
  rw [he] at hp
  rw [(parseComputed_eq_some hp).1]
  rfl

/-- No computed variable reads itself or one that stands behind it in the order. -/
theorem notMem_dependencies (h : s.Coherent) {before after : List String} {name other : String}
    {v : Variable} (ho : s.computedOrder = before ++ name :: after)
    (hv : Dict.get? s.vars other = some v) (hb : other ∈ before ∨ other = name) :
    name ∉ v.dependencies := by
  intro hd
  have hname : name ∈ Dict.keys (graph s.vars) := (h.isOrder.mem_iff name).1 (by simp [ho])
  have hother : other ∈ Dict.keys (graph s.vars) := by
    refine (h.isOrder.mem_iff other).1 ?_
    rcases hb with hb | rfl
    · simp [ho, hb]
    · simp [ho]
  obtain ⟨w, hw, hs⟩ := expr_isSome_of_mem_graph h.nodup hother
  obtain rfl : v = w := Option.some.inj (hv.symm.trans hw)
  have hr : name ∈ (graph s.vars).reads other := by
    rw [Graph.reads, get?_graph h.nodup hv hs]
    exact List.mem_filter.2 ⟨hd, Dict.contains_iff.2 hname⟩
  have hnb : name ∉ before := by
    have hn := h.isOrder.nodup
    rw [ho, List.nodup_append] at hn
    exact fun hm => hn.2.2 name hm name (by simp) rfl
  rcases hb with hb | rfl
  · obtain ⟨b₁, b₂, rfl⟩ := List.append_of_mem hb
    have := h.isOrder.sorted b₁ other (b₂ ++ name :: after) (by simp [ho]) name hr
    exact hnb (List.mem_append_left _ this)
  · exact hnb (h.isOrder.sorted before other after ho other hr)

end Coherent

/-! ## Declaring -/

/-- A store with one more variable. -/
def extend (s : Store) (v : Variable) (order : List String) : Store :=
  { s with vars := s.vars ++ [(v.decl.name, v)], computedOrder := order }

section Extend

variable {s : Store} {v : Variable} {order : List String}

theorem get?_extend_self (order : List String) (hn : v.decl.name ∉ s.names) :
    Dict.get? (s.extend v order).vars v.decl.name = some v := by
  rw [extend, Dict.get?_append, Dict.get?_eq_none_iff.2 hn]
  simp [Dict.get?]

theorem get?_extend_of_ne {name : String} (h : v.decl.name ≠ name) :
    Dict.get? (s.extend v order).vars name = Dict.get? s.vars name := by
  rw [extend, Dict.get?_append]
  simp [Dict.get?, h]

theorem Coherent.extend (h : s.Coherent) (hn : v.decl.name ∉ s.names)
    (hp : s.parseComputed v.decl = .ok v.expr)
    (ho : (graph (s.extend v order).vars).order = .ok order) : (s.extend v order).Coherent where
  nodup := by
    have hnodup : (Dict.keys (Dict.insert s.vars v.decl.name v)).Nodup :=
      Dict.nodup_keys_insert h.nodup
    rwa [Dict.insert_of_notMem hn] at hnodup
  named name w hw := by
    by_cases he : v.decl.name = name
    · subst he
      rw [get?_extend_self order hn] at hw
      rw [← Option.some.inj hw]
    · exact h.named name w ((get?_extend_of_ne he).symm.trans hw)
  parsed name w hw := by
    by_cases he : v.decl.name = name
    · subst he
      rw [get?_extend_self order hn] at hw
      rw [← Option.some.inj hw]
      exact hp
    · exact h.parsed name w ((get?_extend_of_ne he).symm.trans hw)
  order := ho

end Extend

/-- The computed variable of a name anew. -/
def recomputed (s : Store) (name : String) : Store := (s.recompute? name).getD s

@[simp] theorem frame_recomputed (s : Store) (name : String) :
    (s.recomputed name).frame = s.frame := by
  unfold recomputed
  cases h : s.recompute? name with
  | none => rfl
  | some s' =>
    obtain ⟨_, e, -, -, rfl⟩ := recompute?_eq_some h
    exact frame_setValue s name _

theorem get?_recomputed_of_ne (s : Store) {name other : String} (hne : name ≠ other) :
    Dict.get? (s.recomputed name).vars other = Dict.get? s.vars other := by
  unfold recomputed
  cases h : s.recompute? name with
  | none => rfl
  | some s' =>
    obtain ⟨_, e, -, -, rfl⟩ := recompute?_eq_some h
    exact get?_setValue_of_ne s _ hne

/-- What a successful declaration does: its variable goes to the end, gets its place in the order,
and is evaluated if it is computed. -/
theorem declare_eq_ok {load : String → Option String} {s s' : Store} {d : VariableDecl}
    (hs : s.Coherent) (h : s.declare load d = .ok s') :
    d.name ∉ s.names ∧ ∃ expr value order, s.parseComputed d = .ok expr ∧
      s.startValue load d = .ok value ∧
      (graph (s.extend ⟨d, value, expr⟩ order).vars).order = .ok order ∧
      s' = (s.extend ⟨d, value, expr⟩ order).recomputed d.name := by
  unfold declare at h
  by_cases hc : s.contains d.name
  · simp [hc] at h
  · have hn : d.name ∉ Dict.keys s.vars := fun hm => hc (Dict.contains_iff.2 hm)
    simp only [hc, if_false, Bool.false_eq_true] at h
    obtain ⟨expr, hp, h⟩ := bind_eq_ok.1 h
    obtain ⟨value, hvalue, h⟩ := bind_eq_ok.1 h
    rw [Dict.insert_of_notMem hn] at h
    refine ⟨hn, expr, value, ?_⟩
    cases expr with
    | none =>
      refine ⟨s.computedOrder, hp, hvalue, ?_, ?_⟩
      · rw [extend, graph_append]
        simpa [graph] using hs.order
      · have hv := get?_extend_self s.computedOrder (v := ⟨d, value, none⟩) hn
        simp only [recomputed, recompute?, hv, Option.getD_none]
        exact (Except.ok.inj h).symm
    | some e =>
      simp only [Option.isNone_some, Bool.false_eq_true, if_false] at h
      split at h
      · simp at h
      · rename_i order ho
        exact ⟨order, hp, hvalue, ho, (Except.ok.inj h).symm⟩

/-- A declaration succeeds if nothing stands in its way. -/
theorem exists_declare {load : String → Option String} {s : Store} {d : VariableDecl}
    {expr : Option Expr} {value : Value} {order : List String} (hn : d.name ∉ s.names)
    (hp : s.parseComputed d = .ok expr) (hvalue : s.startValue load d = .ok value)
    (horder : (graph (s.vars ++ [(d.name, ⟨d, value, expr⟩)])).order = .ok order) :
    ∃ s', s.declare load d = .ok s' := by
  have hnew : s.contains d.name = false := Bool.eq_false_iff.2 fun hc => hn (Dict.contains_iff.1 hc)
  rw [← Dict.insert_of_notMem hn] at horder
  unfold declare
  simp only [hnew, hp, hvalue, horder, Bool.false_eq_true, if_false, bind, Except.bind]
  split
  · exact ⟨_, rfl⟩
  · exact ⟨_, rfl⟩

theorem Coherent.declare {load : String → Option String} {s s' : Store} {d : VariableDecl}
    (hs : s.Coherent) (h : s.declare load d = .ok s') : s'.Coherent := by
  obtain ⟨hn, expr, value, order, hp, -, ho, rfl⟩ := declare_eq_ok hs h
  exact (hs.extend hn hp ho).of_frame (frame_recomputed _ _).symm

end Archipelago.Store
