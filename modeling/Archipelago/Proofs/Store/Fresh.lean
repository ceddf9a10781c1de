import Archipelago.Proofs.Store.Calls

/-!
# Computed variables are never stale

A batch goes once over the computed variables, each behind those that it reads. What carries the
proof is a cut through that order: in front of it every variable is fresh in the store as it is,
behind it every variable is still the one that the batch began with.
-/

namespace Archipelago

namespace Store

/-- A computed variable holds what its expression gives on the values of now, or an equal value:
an equal value is not stored. -/
def FreshAt (s : Store) (name : String) : Prop :=
  ∀ v e, Dict.get? s.vars name = some v → v.expr = some e →
    v.value = s.computedValue e ∨ v.value.same (s.computedValue e) = true

/-- Every computed variable is as fresh as its expression. -/
def Fresh (s : Store) : Prop := ∀ name, s.FreshAt name

section Congruence

variable {s t : Store}

theorem computedValue_congr {e : Expr} (hr : s.resident = t.resident)
    (hd : ∀ dep ∈ e.dependencies, Dict.get? s.vars dep = Dict.get? t.vars dep) :
    s.computedValue e = t.computedValue e := by
  have he : e.eval s.toScope [] = e.eval t.toScope [] :=
    Expr.eval_eq_of_dependencies [] (fun dep h => by simp only [toScope, hd dep h]) hr
  rw [computedValue, computedValue, he]

theorem dependencies_eq {v : Variable} {e : Expr} (he : v.expr = some e) :
    v.dependencies = e.dependencies := by
  rw [Variable.dependencies, he]

/-- Freshness lasts as long as the variable and all that it reads do. -/
theorem FreshAt.of_kept {name : String} (h : s.FreshAt name) (hr : s.resident = t.resident)
    (hn : Dict.get? s.vars name = Dict.get? t.vars name)
    (hd : ∀ v, Dict.get? s.vars name = some v → ∀ dep ∈ v.dependencies,
      Dict.get? s.vars dep = Dict.get? t.vars dep) : t.FreshAt name := by
  intro v e hv he
  rw [← hn] at hv
  have hc : s.computedValue e = t.computedValue e :=
    computedValue_congr hr fun dep hm => hd v hv dep (by rwa [dependencies_eq he])
  rw [← hc]
  exact h v e hv he

end Congruence

/-- To evaluate a variable anew makes it fresh, unless it reads itself. -/
theorem freshAt_recomputed {s : Store} {name : String}
    (hd : ∀ v, Dict.get? s.vars name = some v → name ∉ v.dependencies) :
    (s.recomputed name).FreshAt name := by
  unfold recomputed
  cases h : s.recompute? name with
  | none =>
    intro v e hv he
    exact .inr (recompute?_eq_none h hv he)
  | some s' =>
    obtain ⟨v, e, hv, he, rfl⟩ := recompute?_eq_some h
    intro w e' hw he'
    rw [Option.getD_some, get?_setValue_self hv] at hw
    obtain rfl := Option.some.inj hw
    obtain rfl : e = e' := Option.some.inj (he.symm.trans he')
    refine .inl (computedValue_congr (resident_eq (frame_setValue s name _)).symm ?_)
    intro dep hdep
    refine (get?_setValue_of_ne s _ ?_).symm
    rintro rfl
    exact hd v hv (by rwa [dependencies_eq he])

/-! ## Declaring -/

section Declare

variable {load : String → Option String} {s s' : Store} {d : VariableDecl}

/-- A declaration leaves all that is declared already as it is. -/
theorem get?_declare_of_ne (hs : s.Coherent) (h : s.declare load d = .ok s') {name : String}
    (hne : d.name ≠ name) : Dict.get? s'.vars name = Dict.get? s.vars name := by
  obtain ⟨-, expr, value, order, -, -, -, rfl⟩ := declare_eq_ok hs h
  rw [get?_recomputed_of_ne _ hne, get?_extend_of_ne hne]

theorem resident_declare (hs : s.Coherent) (h : s.declare load d = .ok s') :
    s'.resident = s.resident := by
  obtain ⟨-, expr, value, order, -, -, -, rfl⟩ := declare_eq_ok hs h
  exact (resident_eq (frame_recomputed (s.extend ⟨d, value, expr⟩ order) d.name) :)

/-- A new variable is fresh. -/
theorem freshAt_declare (hs : s.Coherent) (h : s.declare load d = .ok s') : s'.FreshAt d.name := by
  obtain ⟨hn, expr, value, order, hp, -, ho, rfl⟩ := declare_eq_ok hs h
  have hc : (s.extend ⟨d, value, expr⟩ order).Coherent := hs.extend hn hp ho
  have hv := get?_extend_self order (v := ⟨d, value, expr⟩) hn
  refine freshAt_recomputed fun v hv' => ?_
  obtain rfl : _ = v := Option.some.inj (hv.symm.trans hv')
  cases expr with
  | none => simp [Variable.dependencies]
  | some e =>
    obtain ⟨before, after, hsplit⟩ := List.append_of_mem (hc.mem_computedOrder hv rfl)
    exact hc.notMem_dependencies hsplit hv (.inr rfl)

/-- A variable that does not read the new one is as fresh as before. -/
theorem FreshAt.declare {name : String} (hf : s.FreshAt name) (hs : s.Coherent)
    (h : s.declare load d = .ok s') (hne : d.name ≠ name)
    (hd : ∀ v, Dict.get? s.vars name = some v → d.name ∉ v.dependencies) : s'.FreshAt name := by
  refine hf.of_kept (resident_declare hs h).symm (get?_declare_of_ne hs h hne).symm ?_
  intro v hv dep hdep
  refine (get?_declare_of_ne hs h ?_).symm
  rintro rfl
  exact hd v hv hdep

/-- A new variable keeps a store fresh if no computed variable has been waiting for it. -/
theorem Fresh.declare (hf : s.Fresh) (hs : s.Coherent) (h : s.declare load d = .ok s')
    (hd : ∀ name v, Dict.get? s.vars name = some v → d.name ∉ v.dependencies) : s'.Fresh := by
  intro name
  by_cases he : d.name = name
  · exact he ▸ freshAt_declare hs h
  · exact (hf name).declare hs h he (hd name)

end Declare

/-! ## Batches -/

namespace Batch

variable {s : Store} {b : Batch}

/-- A cut through the order of the computed variables while a batch settles. -/
structure Settling (s : Store) (b : Batch) (done rest : List String) : Prop where
  split : s.computedOrder = done ++ rest
  tracks : Tracks s b
  fresh : ∀ name ∈ done, b.store.FreshAt name
  pending : ∀ name ∈ rest, Dict.get? b.store.vars name = Dict.get? s.vars name

/-- A refresh is a recomputation, or else nothing that the variable reads has changed. -/
theorem refresh_store (b : Batch) (name : String) :
    (b.refresh name).store = b.store.recomputed name ∨
      (b.refresh name).store = b.store ∧
        ∀ v, Dict.get? b.store.vars name = some v → ∀ dep ∈ v.dependencies, dep ∉ b.changed := by
  unfold refresh recomputed
  cases hv : Dict.get? b.store.vars name with
  | none => exact .inr ⟨rfl, fun v h => by simp at h⟩
  | some v =>
    dsimp only
    split
    · cases hr : b.store.recompute? name with
      | none => exact .inl rfl
      | some s' => exact .inl rfl
    · rename_i hd
      refine .inr ⟨rfl, fun w hw dep hm hc => hd ?_⟩
      obtain rfl := Option.some.inj hw
      exact List.any_eq_true.2 ⟨dep, hm, by simpa using hc⟩

theorem get?_refresh_of_ne {name other : String} (hne : name ≠ other) :
    Dict.get? (b.refresh name).store.vars other = Dict.get? b.store.vars other := by
  rcases b.refresh_store name with h | ⟨h, -⟩
  · rw [h, get?_recomputed_of_ne _ hne]
  · rw [h]

theorem get?_refreshes_of_notMem {names : List String} {other : String} (h : other ∉ names) :
    Dict.get? (names.foldl Batch.refresh b).store.vars other = Dict.get? b.store.vars other := by
  induction names generalizing b with
  | nil => rfl
  | cons name names ih =>
    rw [List.mem_cons, not_or] at h
    rw [List.foldl_cons, ih h.2, get?_refresh_of_ne (Ne.symm h.1)]

/-- The cut moves on by one variable. A variable in front of it does not read the one that is
evaluated. -/
theorem Settling.refresh (hs : s.Coherent) (hf : s.Fresh) {done rest : List String} {name : String}
    (h : Settling s b done (name :: rest)) :
    Settling s (b.refresh name) (done ++ [name]) rest := by
  have hb : b.store.Coherent := hs.of_frame h.tracks.frame.symm
  have ho : b.store.computedOrder = done ++ name :: rest :=
    (computedOrder_eq h.tracks.frame).trans h.split
  have hres : b.store.resident = (b.refresh name).store.resident :=
    resident_eq (h.tracks.frame.trans (h.tracks.refresh name).frame.symm)
  have hnodup : (done ++ name :: rest).Nodup := by rw [← ho]; exact hb.isOrder.nodup
  have hne : ∀ other ∈ done ++ rest, name ≠ other := by
    rintro other hm rfl
    simp only [List.nodup_append, List.nodup_cons, List.mem_append] at hnodup hm
    rcases hm with hm | hm
    · exact hnodup.2.2 name hm name (by simp) rfl
    · exact hnodup.2.1.1 hm
  refine ⟨by simp [h.split], h.tracks.refresh name, ?_, ?_⟩
  · intro other hm
    rcases List.mem_append.1 hm with hm | hm
    · refine (h.fresh other hm).of_kept hres
        (get?_refresh_of_ne (hne other (List.mem_append_left _ hm))).symm ?_
      intro v hv dep hdep
      refine (get?_refresh_of_ne ?_).symm
      rintro rfl
      exact hb.notMem_dependencies ho hv (.inl hm) hdep
    · obtain rfl : other = name := by simpa using hm
      rcases b.refresh_store other with hr | ⟨hr, hkeep⟩
      · rw [hr]
        exact freshAt_recomputed fun v hv => hb.notMem_dependencies ho hv (.inr rfl)
      · rw [hr]
        have hp := h.pending other (by simp)
        refine (hf other).of_kept (resident_eq h.tracks.frame).symm hp.symm ?_
        intro v hv dep hdep
        exact (h.tracks.kept dep (hkeep v (hp.trans hv) dep hdep)).symm
  · intro other hm
    rw [get?_refresh_of_ne (hne other (List.mem_append_right _ hm))]
    exact h.pending other (List.mem_cons_of_mem _ hm)

theorem Settling.refreshes (hs : s.Coherent) (hf : s.Fresh) {done rest : List String}
    (h : Settling s b done rest) : Settling s (rest.foldl Batch.refresh b) (done ++ rest) [] := by
  induction rest generalizing b done with
  | nil => simpa using h
  | cons name rest ih => simpa using ih (h.refresh hs hf)

/-- A write of one name leaves the others alone. -/
theorem get?_write_of_ne {name other : String} (hne : name ≠ other) (x : Value) :
    Dict.get? (b.write name x).store.vars other = Dict.get? b.store.vars other := by
  unfold Batch.write
  split
  · split
    · rfl
    · exact get?_setValue_of_ne _ _ hne
  · rfl

theorem get?_writes_of_notMem {ws : List (String × Value)} {other : String}
    (h : ∀ w ∈ ws, w.1 ≠ other) :
    Dict.get? (ws.foldl (fun b w => b.write w.1 w.2) b).store.vars other =
      Dict.get? b.store.vars other := by
  induction ws generalizing b with
  | nil => rfl
  | cons w ws ih =>
    rw [List.foldl_cons, ih fun x hx => h x (List.mem_cons_of_mem _ hx),
      get?_write_of_ne (h w (by simp))]

end Batch

/-- A staged write is of a variable that can be written. -/
theorem isReadOnly_of_stageAll {s : Store} {ws : List Write} {staged : List (String × Value)}
    (h : s.stageAll ws = .ok staged) {name : String} {x : Value} (hm : (name, x) ∈ staged)
    {v : Variable} (hv : Dict.get? s.vars name = some v) : v.decl.type.isReadOnly = false := by
  obtain ⟨w, -, hw⟩ := exists_stage h _ hm
  obtain ⟨u, hu, hro, hname, -⟩ := stage_eq_ok hw
  obtain rfl : name = w.name := hname
  obtain rfl : v = u := Option.some.inj (hv.symm.trans hu)
  exact hro

/-- A batch keeps a store fresh. -/
theorem Fresh.apply {s s' : Store} {ws : List Write} {c : Commit} (hf : s.Fresh) (hs : s.Coherent)
    (h : s.apply ws = .ok (s', c)) : s'.Fresh := by
  obtain ⟨staged, hstaged, he, -⟩ := apply_eq_ok h
  have hstart : Batch.Settling s (staged.foldl (fun b w => b.write w.1 w.2) ⟨s, []⟩) []
      s.computedOrder := by
    refine ⟨by simp, (Batch.Tracks.start s).writes staged, by simp, ?_⟩
    intro name hname
    refine Batch.get?_writes_of_notMem fun w hw hwn => ?_
    obtain ⟨v, hv, hexpr⟩ :=
      expr_isSome_of_mem_graph hs.nodup ((hs.isOrder.mem_iff name).1 hname)
    have hro := isReadOnly_of_stageAll hstaged (hwn ▸ hw : (name, w.2) ∈ staged) hv
    rw [hs.isReadOnly_of_expr hv hexpr] at hro
    simp at hro
  have hdone := hstart.refreshes hs hf
  rw [he] at hdone
  intro name v e hv hexpr
  refine hdone.fresh name ?_ v e hv hexpr
  have hs' : s'.Coherent := hs.of_frame hdone.tracks.frame.symm
  have hm := hs'.mem_computedOrder hv (by rw [hexpr]; rfl)
  rwa [computedOrder_eq hdone.tracks.frame] at hm

/-! ## Runs -/

/-- Declarations that read backward build a fresh store. -/
theorem Fresh.declareAll {load : String → Option String} {s s' : Store}
    {before more : List VariableDecl} (hf : s.Fresh) (hs : s.DeclaredAs before)
    (hb : VariableDecl.ReadBackward s.limits (before ++ more))
    (h : s.declareAll load more = .ok s') :
    s'.Fresh := by
  induction more generalizing s before with
  | nil =>
    obtain rfl : s = s' := Except.ok.inj h
    exact hf
  | cons d more ih =>
    obtain ⟨t, ht, h⟩ := bind_eq_ok.1 h
    have hnext := hs.declare ht
    refine ih (hf.declare hs.coherent ht ?_) hnext.1 (by simpa [hnext.2.1] using hb) h
    intro name v hv hdep
    rw [hs.coherent.dependencies_eq hv] at hdep
    obtain ⟨b₁, b₂, hsplit⟩ := List.append_of_mem (hs.mem_of_get? hv).1
    have hsplit' : before ++ d :: more = b₁ ++ v.decl :: (b₂ ++ d :: more) := by simp [hsplit]
    rw [hsplit'] at hb
    rcases hb.at_split hdep with hm | hm
    · refine (declare_eq_ok hs.coherent ht).1 ?_
      rw [hs.names, hsplit, List.map_append]
      exact List.mem_append_left _ hm
    · exact hm (by simp)

end Store

/-- In a store built from declarations that read backward, each computed variable holds what its
expression gives on the values of now, or an equal value, after any run of calls. -/
theorem KeptStore.computed_never_stale {params : Dict String} {resident : Value} {scope : String}
    {limits : EvalLimits} {storage : Option Storage} {ds : List VariableDecl} {k : KeptStore}
    (hds : VariableDecl.ReadBackward limits ds)
    (hk : (⟨{ params, resident, scope, limits }, storage⟩ : KeptStore).declareAll ds = .ok k)
    (calls : List Store.Call) :
    (k.run calls).store.names = ds.map (·.name) ∧
      ∀ d ∈ ds, d.type = .computed → ∃ src e value, d.expression = some src ∧
        Expr.parse limits src = .ok e ∧
        Dict.get? (k.run calls).store.vars d.name = some ⟨d, value, some e⟩ ∧
        (value = (k.run calls).store.computedValue e ∨
          value.same ((k.run calls).store.computedValue e) = true) := by
  obtain ⟨s, hs, hk⟩ := bind_eq_ok.1 hk
  obtain rfl := Except.ok.inj hk
  have hblank : ({ params, resident, scope, limits } : Store).DeclaredAs [] := .blank rfl rfl
  have hdecl := hblank.declareAll hs
  have hfresh : s.Fresh :=
    Store.Fresh.declareAll (fun name v e hv => by simp at hv) hblank hds hs
  have hrun := KeptStore.run_preserves
    (P := fun t => t.DeclaredAs ds ∧ t.limits = limits ∧ t.Fresh)
    (fun t t' ws c ⟨hd, hl, hf⟩ ha =>
      have hframe := (Store.apply_tracks ha).frame.symm
      ⟨hd.of_frame hframe, (Store.limits_eq hframe).symm.trans hl, hf.apply hd.coherent ha⟩)
    (k := ⟨s, storage⟩) ⟨hdecl.1, hdecl.2.1, hfresh⟩ calls
  obtain ⟨hd, hl, hf⟩ := hrun
  refine ⟨hd.names, fun d hm ht => ?_⟩
  obtain ⟨v, hv, rfl⟩ := hd.get?_of_mem hm
  have hp := hd.coherent.parsed _ v hv
  cases he : v.expr with
  | none =>
    rw [he] at hp
    exact absurd ht (Store.parseComputed_eq_none hp)
  | some e =>
    rw [he] at hp
    obtain ⟨-, src, hx, hparse⟩ := Store.parseComputed_eq_some hp
    exact ⟨src, e, v.value, hx, hl ▸ hparse, by rw [hv, ← he], hf _ v e hv he⟩

/-- A greeting that follows a name, and one made louder that follows the greeting. -/
def greetings : List VariableDecl :=
  [{ name := "name", type := .string, initial := .string "ada" },
    { name := "greeting", type := .computed, initial := .null,
      expression := some "'hi ' + $vars.name" },
    { name := "louder", type := .computed, initial := .null,
      expression := some "$vars.greeting + '!'" }]

/-- A new name goes through the greeting to the louder one, and nobody writes what is computed. -/
theorem greetings_never_stale :
    VariableDecl.ReadBackward {} greetings ∧
      ∃ k, (⟨{}, none⟩ : KeptStore).declareAll greetings = .ok k ∧
        ∀ d ∈ greetings, d.type = .computed → ∃ src e value, d.expression = some src ∧
          Expr.parse {} src = .ok e ∧
          Dict.get? (k.run [.set "name" (.string "eve"), .reset "louder"]).store.vars d.name =
            some ⟨d, value, some e⟩ ∧
          (value = (k.run [.set "name" (.string "eve"), .reset "louder"]).store.computedValue e ∨
            value.same
            ((k.run [.set "name" (.string "eve"), .reset "louder"]).store.computedValue e)
              = true) := by
  have hds : VariableDecl.ReadBackward {} greetings := by decide +kernel
  have hk : ((⟨{}, none⟩ : KeptStore).declareAll greetings).toBool = true := by decide +kernel
  refine ⟨hds, ?_⟩
  cases h : (⟨{}, none⟩ : KeptStore).declareAll greetings with
  | error e => simp [h, Except.toBool] at hk
  | ok k => exact ⟨k, rfl, (KeptStore.computed_never_stale hds h _).2⟩

end Archipelago
