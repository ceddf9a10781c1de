import Archipelago.Proofs.Action.Targets
import Archipelago.Proofs.Store.Fresh
import Archipelago.Proofs.Template.Reactive

/-!
# Stores that agree but for some variables

If the names of all readers of some variables are among their names, then nothing else is reached
from those variables: neither by a batch that writes no others, nor by the values that they start
with. So two stores of one template agree on all the others, whatever they have been through.
-/

namespace Archipelago

open Template (ClosedUnder Given)

namespace Store

/-- Two stores with the same data but for the variables of these names. -/
structure AgreeOff (names : List String) (s t : Store) : Prop where
  vars : ∀ name, name ∉ names → Dict.get? s.vars name = Dict.get? t.vars name
  limits : s.limits = t.limits
  resident : s.resident = t.resident

variable {names : List String} {s t u : Store}

namespace AgreeOff

theorem refl (s : Store) : AgreeOff names s s := ⟨fun _ _ => rfl, rfl, rfl⟩

theorem symm (h : AgreeOff names s t) : AgreeOff names t s :=
  ⟨fun name hn => (h.vars name hn).symm, h.limits.symm, h.resident.symm⟩

theorem trans (h : AgreeOff names s t) (h' : AgreeOff names t u) : AgreeOff names s u :=
  ⟨fun name hn => (h.vars name hn).trans (h'.vars name hn), h.limits.trans h'.limits,
    h.resident.trans h'.resident⟩

theorem lookup (h : AgreeOff names s t) {name : String} (hn : name ∉ names) :
    s.toScope.lookup name = t.toScope.lookup name := by
  show (Dict.get? s.vars name).map _ = (Dict.get? t.vars name).map _
  rw [h.vars name hn]

end AgreeOff

/-! ## Batches -/

/-- A variable that reads one of the names has one of them. -/
theorem DeclaredAs.mem_of_dependencies {ds : List VariableDecl} (hs : s.DeclaredAs ds)
    (hc : ClosedUnder s.limits ds names) {name : String} {v : Variable}
    (hv : Dict.get? s.vars name = some v) {dep : String} (hdep : dep ∈ v.dependencies)
    (hn : dep ∈ names) : name ∈ names := by
  obtain ⟨hd, rfl⟩ := hs.mem_of_get? hv
  rw [hs.coherent.dependencies_eq hv] at hdep
  exact hc _ hd dep hdep hn

namespace Batch

variable {b : Batch}

theorem changed_write (name : String) (x : Value) :
    ∀ other ∈ (b.write name x).changed, other ∈ b.changed ∨ other = name := by
  unfold Batch.write
  split
  · split
    · exact fun _ h => .inl h
    · exact fun _ h => mem_addNew.1 h
  · exact fun _ h => .inl h

/-- A computed variable changes only if it reads one that has changed. -/
theorem changed_refresh (name : String) :
    ∀ other ∈ (b.refresh name).changed, other ∈ b.changed ∨ other = name ∧
      ∃ v, Dict.get? b.store.vars name = some v ∧ ∃ dep ∈ v.dependencies, dep ∈ b.changed := by
  unfold Batch.refresh
  split
  · rename_i v hv
    split
    · rename_i hreads
      split
      · intro other hother
        refine (mem_addNew.1 hother).imp id fun he => ⟨he, v, hv, ?_⟩
        obtain ⟨dep, hdep, hchanged⟩ := List.any_eq_true.1 hreads
        exact ⟨dep, hdep, of_decide_eq_true hchanged⟩
      · exact fun _ h => .inl h
    · exact fun _ h => .inl h
  · exact fun _ h => .inl h

theorem changed_writes {ws : List (String × Value)} (hws : ∀ w ∈ ws, w.1 ∈ names)
    (hb : b.changed ⊆ names) : (ws.foldl (fun b w => b.write w.1 w.2) b).changed ⊆ names := by
  induction ws generalizing b with
  | nil => exact hb
  | cons w ws ih =>
    refine ih (fun x hx => hws x (List.mem_cons_of_mem _ hx)) fun other hother => ?_
    rcases changed_write w.1 w.2 other hother with h | rfl
    · exact hb h
    · exact hws w List.mem_cons_self

theorem changed_refreshes {ds : List VariableDecl} (hs : s.DeclaredAs ds)
    (hc : ClosedUnder s.limits ds names) (order : List String) (ht : Tracks s b)
    (hb : b.changed ⊆ names) : (order.foldl Batch.refresh b).changed ⊆ names := by
  induction order generalizing b with
  | nil => exact hb
  | cons name order ih =>
    refine ih (ht.refresh name) fun other hother => ?_
    rcases changed_refresh name other hother with h | ⟨rfl, v, hv, dep, hdep, hchanged⟩
    · exact hb h
    · have hstore : b.store.DeclaredAs ds := hs.of_frame ht.frame.symm
      exact hstore.mem_of_dependencies (limits_eq ht.frame ▸ hc) hv hdep (hb hchanged)

end Batch

/-- A batch that writes nothing but these variables changes no others. -/
theorem AgreeOff.apply {ds : List VariableDecl} (hs : s.DeclaredAs ds)
    (hc : ClosedUnder s.limits ds names) {ws : List Write} {c : Commit}
    (hws : ∀ w ∈ ws, w.name ∈ names) (h : s.apply ws = .ok (t, c)) : AgreeOff names s t := by
  obtain ⟨staged, hstaged, hsettled, -⟩ := apply_eq_ok h
  have hnames : ∀ p ∈ staged, p.1 ∈ names := by
    intro p hp
    obtain ⟨w, hw, hstage⟩ := exists_stage hstaged p hp
    obtain ⟨-, -, -, hname, -⟩ := stage_eq_ok hstage
    exact hname ▸ hws w hw
  have hwritten := Batch.changed_writes (b := ⟨s, []⟩) hnames (List.nil_subset _)
  have hchanged := Batch.changed_refreshes hs hc s.computedOrder
    ((Batch.Tracks.start s).writes staged) hwritten
  rw [hsettled] at hchanged
  have htracks := apply_tracks h
  refine ⟨fun name hn => (htracks.kept name fun hm => hn (hchanged hm)).symm, ?_, ?_⟩
  · exact (limits_eq htracks.frame).symm
  · exact (resident_eq htracks.frame).symm

/-- A run that writes nothing but these variables changes no others. -/
theorem AgreeOff.of_writes {ds : List VariableDecl} (hs : s.DeclaredAs ds)
    (hc : ClosedUnder s.limits ds names) {u : Trace} (h : Trace.Writes names { store := s } u) :
    AgreeOff names s u.store := by
  have hkept := h.preserves (P := fun t => t.DeclaredAs ds ∧ AgreeOff names s t) ?_ ⟨hs, .refl s⟩
  · exact hkept.2
  · rintro t t' ws c ⟨ht, hagree⟩ hws ha
    refine ⟨ht.of_frame (apply_tracks ha).frame.symm, hagree.trans ?_⟩
    exact .apply ht (hagree.limits ▸ hc) hws ha

/-! ## Declarations -/

/-- All but the given variables start with what their declarations say. -/
theorem startValue_congr {d : VariableDecl} (h : ¬ Given d) (load load' : String → Option String) :
    s.startValue load d = t.startValue load' d := by
  obtain ⟨hpersist, hparam⟩ := not_or.1 h
  unfold startValue
  split
  · rfl
  · rename_i htype
    exact absurd htype hparam
  · simp only [if_neg hpersist]

/-- The value of a computed variable is the same if all that it reads is. -/
theorem AgreeOff.recomputed (h : AgreeOff names s t) {name : String}
    (hreads : name ∉ names → ∀ v, Dict.get? s.vars name = some v →
      ∀ dep ∈ v.dependencies, dep ∉ names) :
    AgreeOff names (s.recomputed name) (t.recomputed name) where
  limits := by
    rw [limits_eq (frame_recomputed s name), limits_eq (frame_recomputed t name), h.limits]
  resident := by
    rw [resident_eq (frame_recomputed s name), resident_eq (frame_recomputed t name), h.resident]
  vars other hn := by
    by_cases hne : name = other
    · subst hne
      have hvars := h.vars name hn
      cases hs : Dict.get? s.vars name with
      | none =>
        have ht := hvars.symm.trans hs
        simp only [Store.recomputed, recompute?, hs, ht, Option.getD_none]
      | some v =>
        have ht := hvars.symm.trans hs
        obtain ⟨decl, old, expr⟩ := v
        cases expr with
        | none => simp only [Store.recomputed, recompute?, hs, ht, Option.getD_none]
        | some e =>
          have hvalue : s.computedValue e = t.computedValue e :=
            computedValue_congr h.resident fun dep hdep =>
              h.vars dep (hreads hn _ hs dep hdep)
          simp only [Store.recomputed, recompute?, hs, ht, hvalue]
          split
          · simp only [Option.getD_none, hs, ht]
          · simp only [Option.getD_some, get?_setValue_self hs, get?_setValue_self ht]
    · rw [get?_recomputed_of_ne _ hne, get?_recomputed_of_ne _ hne]
      exact h.vars other hn

/-- A declaration keeps two stores in agreement, if its variable counts where it has to. -/
theorem AgreeOff.declare {d : VariableDecl} {load load' : String → Option String} {s' t' : Store}
    (h : AgreeOff names s t) (hs : s.Coherent) (ht : t.Coherent) (hgiven : Given d → d.name ∈ names)
    (hc : ∀ dep ∈ d.reads s.limits, dep ∈ names → d.name ∈ names)
    (hs' : s.declare load d = .ok s') (ht' : t.declare load' d = .ok t') :
    AgreeOff names s' t' := by
  obtain ⟨hn, expr, value, order, hp, hvalue, ho, rfl⟩ := declare_eq_ok hs hs'
  obtain ⟨hn', expr', value', order', hp', hvalue', ho', rfl⟩ := declare_eq_ok ht ht'
  have hextended : AgreeOff names (s.extend ⟨d, value, expr⟩ order)
      (t.extend ⟨d, value', expr'⟩ order') := by
    refine ⟨fun name hname => ?_, h.limits, h.resident⟩
    by_cases he : d.name = name
    · subst he
      have hstart := startValue_congr (s := s) (t := t) (fun hg => hname (hgiven hg)) load load'
      obtain rfl : value = value' := Except.ok.inj (hvalue.symm.trans (hstart.trans hvalue'))
      obtain rfl : expr = expr' :=
        Except.ok.inj (hp.symm.trans ((parseComputed_congr h.limits d).trans hp'))
      rw [get?_extend_self order (v := ⟨d, value, expr⟩) hn,
        get?_extend_self order' (v := ⟨d, value, expr⟩) hn']
    · rw [get?_extend_of_ne he, get?_extend_of_ne he]
      exact h.vars name hname
  refine hextended.recomputed fun hname v hv dep hdep hmem => hname ?_
  have hcoherent : (s.extend ⟨d, value, expr⟩ order).Coherent := hs.extend hn hp ho
  rw [hcoherent.dependencies_eq hv] at hdep
  have hself := get?_extend_self order (v := ⟨d, value, expr⟩) hn
  obtain rfl : _ = v := Option.some.inj (hself.symm.trans hv)
  exact hc dep hdep hmem

/-- Declarations build stores that agree on what does not depend on given variables. -/
theorem AgreeOff.declareAll {ds : List VariableDecl} {load load' : String → Option String}
    {s' t' : Store} (h : AgreeOff names s t) (hs : s.Coherent) (ht : t.Coherent)
    (hgiven : ∀ d ∈ ds, Given d → d.name ∈ names) (hc : ClosedUnder s.limits ds names)
    (hs' : s.declareAll load ds = .ok s') (ht' : t.declareAll load' ds = .ok t') :
    AgreeOff names s' t' := by
  induction ds generalizing s t with
  | nil =>
    obtain rfl : s = s' := Except.ok.inj hs'
    obtain rfl : t = t' := Except.ok.inj ht'
    exact h
  | cons d ds ih =>
    obtain ⟨u, hu, hs'⟩ := bind_eq_ok.1 hs'
    obtain ⟨v, hv, ht'⟩ := bind_eq_ok.1 ht'
    have hnext := h.declare hs ht (hgiven d List.mem_cons_self) (hc d List.mem_cons_self) hu hv
    have hlimits : s.limits = u.limits := by
      obtain ⟨-, expr, value, order, -, -, -, rfl⟩ := declare_eq_ok hs hu
      exact (limits_eq (frame_recomputed (s.extend ⟨d, value, expr⟩ order) d.name)).symm
    refine ih hnext (hs.declare hu) (ht.declare hv) (fun d' hd' => ?_) (fun d' hd' => ?_) hs' ht'
    · exact hgiven d' (List.mem_cons_of_mem _ hd')
    · exact hlimits ▸ hc d' (List.mem_cons_of_mem _ hd')

end Store

end Archipelago
