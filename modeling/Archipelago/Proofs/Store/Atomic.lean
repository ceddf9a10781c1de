import Archipelago.Proofs.Store.Frame
import Archipelago.Store.InPlace

/-!
# Operations on a store are atomic

An operation changes a store in place, one step after the other, and no step takes back what others
have done. Still an operation that fails leaves everything as it was: a batch and an action check
all before they write, and a declaration takes its variable out again. What an operation that
succeeds leaves is what the store gives that is computed from the old one.
-/

namespace Archipelago

namespace Dict

universe u

variable {α : Type u}

/-- To take out what has been new leaves what was there before. -/
theorem erase_insert_of_notMem {d : Dict α} {name : String} (h : name ∉ keys d) (x : α) :
    erase (insert d name x) name = d := by
  have hd : ∀ e ∈ d, e.1 ≠ name := fun e he hn => h (hn ▸ List.mem_map_of_mem he)
  rw [insert_of_notMem h, erase, List.filter_append, List.filter_eq_self.2 (by simpa using hd)]
  simp

end Dict

/-! ## Names that change -/

namespace Store

namespace Batch

variable {b : Batch}

theorem nodup_write (h : b.changed.Nodup) (name : String) (x : Value) :
    (b.write name x).changed.Nodup := by
  unfold Batch.write
  split
  · split
    · exact h
    · exact nodup_addNew h name
  · exact h

theorem nodup_refresh (h : b.changed.Nodup) (name : String) : (b.refresh name).changed.Nodup := by
  unfold Batch.refresh
  split
  · split
    · split
      · exact nodup_addNew h name
      · exact h
    · exact h
  · exact h

end Batch

/-- A batch reports each name once. -/
theorem nodup_changed {s s' : Store} {ws : List Write} {c : Commit}
    (h : s.apply ws = .ok (s', c)) : c.changed.Nodup := by
  obtain ⟨staged, -, he, -⟩ := apply_eq_ok h
  have hwritten : (staged.foldl (fun b w => b.write w.1 w.2) (⟨s, []⟩ : Batch)).changed.Nodup :=
    List.foldlRecOn staged _ (motive := fun b : Batch => b.changed.Nodup) List.nodup_nil
      fun b hb w _ => Batch.nodup_write hb w.1 w.2
  have hsettled := List.foldlRecOn s.computedOrder Batch.refresh
    (motive := fun b : Batch => b.changed.Nodup) hwritten
    fun b hb name _ => Batch.nodup_refresh hb name
  rwa [he] at hsettled

end Store

namespace LiveStore

/-- A store with another one in its place, with these texts saved and these subscribers told. -/
def after (l : LiveStore) (s : Store) (saves : List (String × String)) (notices : List Notice) :
    LiveStore :=
  ⟨l.kept.keep s saves, l.told ++ notices⟩

theorem after_nil (l : LiveStore) (s : Store) : l.after s [] [] = l.withStore s := by
  obtain ⟨⟨s, storage⟩, told⟩ := l
  simp [after, withStore, KeptStore.keep, Storage.saveAll]

/-! ## Steps -/

section Run

variable {ε ε' α β : Type} (l : LiveStore)

@[simp] theorem run_pure (a : α) : (pure a : Step ε α).run l = (.ok a, l) := rfl

@[simp] theorem run_get : (get : Step ε LiveStore).run l = (.ok l, l) := rfl

@[simp] theorem run_modify (f : LiveStore → LiveStore) :
    (modify f : Step ε Unit).run l = (.ok (), f l) := rfl

@[simp] theorem run_store : (store : Step ε Store).run l = (.ok l.kept.store, l) := rfl

@[simp] theorem run_setStore (s : Store) :
    (setStore s : Step ε Unit).run l = (.ok (), l.withStore s) := rfl

@[simp] theorem run_result (x : Except ε α) : (result x).run l = (x, l) := by
  cases x with
  | ok a => rfl
  | error e => rfl

theorem run_bind (x : Step ε α) (f : α → Step ε β) :
    (x >>= f).run l = match x.run l with
      | (.ok a, l) => (f a).run l
      | (.error e, l) => (.error e, l) := by
  unfold Step.run ExceptT.run StateT.run Id.run
  simp only [bind, ExceptT.bind, ExceptT.mk, StateT.bind]
  obtain ⟨a | e, l⟩ := x l
  · rfl
  · rfl

@[simp] theorem run_adapt (f : ε → ε') (x : Step ε α) :
    Step.run (ExceptT.adapt f x) l = ((x.run l).1.mapError f, (x.run l).2) := by
  unfold Step.run ExceptT.adapt ExceptT.mk ExceptT.run StateT.run Id.run
  simp only [Functor.map, StateT.map]
  rfl

end Run

/-! ## Declaring -/

theorem run_place (name : String) (l : LiveStore) :
    (place name).run l = match (Store.graph l.kept.store.vars).order with
      | .ok computedOrder => (.ok (), l.withStore
          (({ l.kept.store with computedOrder }.recompute? name).getD
            { l.kept.store with computedOrder }))
      | .error cyclic => (.error (.cyclicComputed cyclic),
          l.withStore { l.kept.store with vars := Dict.erase l.kept.store.vars name }) := by
  rw [place, run_bind, run_store]
  dsimp only
  cases (Store.graph l.kept.store.vars).order with
  | ok computedOrder => rfl
  | error cyclic => rfl

/-- A declaration puts the variable in, and out again if it fails. -/
theorem run_declare (d : VariableDecl) (l : LiveStore) :
    (declare d).run l = match l.kept.store.declare l.kept.load d with
      | .ok s => (.ok (), l.withStore s)
      | .error e => (.error e, l) := by
  rw [declare, run_bind, run_store, Store.declare]
  dsimp only
  by_cases hc : l.kept.store.contains d.name = true
  · rw [if_pos hc, if_pos hc]
    rfl
  · have hn : d.name ∉ Dict.keys l.kept.store.vars := fun hm => hc (Dict.contains_iff.2 hm)
    rw [if_neg hc, if_neg hc, run_bind, run_result]
    cases l.kept.store.parseComputed d with
    | error e => rfl
    | ok expr =>
      dsimp only
      rw [run_bind, run_get]
      dsimp only
      rw [run_bind, run_result]
      cases l.kept.store.startValue l.kept.load d with
      | error e => rfl
      | ok value =>
        dsimp only
        rw [run_bind, run_setStore]
        dsimp only
        cases expr with
        | none => rfl
        | some e =>
          simp only [Option.isSome_some, if_true, bind, Except.bind, Option.isNone_some, withStore]
          rw [run_place]
          dsimp only
          cases (Store.graph (Dict.insert l.kept.store.vars d.name ⟨d, value, some e⟩)).order with
          | ok computedOrder => rfl
          | error cyclic =>
            dsimp only
            rw [Dict.erase_insert_of_notMem hn]
            rfl

/-! ## Writing -/

section Writing

variable {ε : Type} (l : LiveStore)

theorem run_stageAll (ws : List Write) : (stageAll ws).run l = (l.kept.store.stageAll ws, l) := by
  induction ws with
  | nil => rfl
  | cons w ws ih =>
    rw [stageAll, run_bind, run_store, Store.stageAll]
    dsimp only
    rw [run_bind, run_result]
    cases l.kept.store.stage w with
    | error e => rfl
    | ok staged =>
      dsimp only
      rw [run_bind, ih]
      cases l.kept.store.stageAll ws with
      | error e => rfl
      | ok more => rfl

theorem run_writeAll (ws : List (String × Value)) (changed : List String) :
    (writeAll ws changed : Step ε _).run l =
      let b := ws.foldl (fun b w => b.write w.1 w.2) (⟨l.kept.store, changed⟩ : Store.Batch)
      (.ok b.changed, l.withStore b.store) := by
  induction ws generalizing l changed with
  | nil => rfl
  | cons w ws ih =>
    rw [writeAll, run_bind, run_store]
    dsimp only
    rw [run_bind, run_setStore]
    exact ih _ _

theorem run_refreshAll (names changed : List String) :
    (refreshAll names changed : Step ε _).run l =
      let b := names.foldl Store.Batch.refresh (⟨l.kept.store, changed⟩ : Store.Batch)
      (.ok b.changed, l.withStore b.store) := by
  induction names generalizing l changed with
  | nil => rfl
  | cons name names ih =>
    rw [refreshAll, run_bind, run_store]
    dsimp only
    rw [run_bind, run_setStore]
    exact ih _ _

theorem run_saveAll (saves : List (String × String)) :
    (saveAll saves : Step ε _).run l = (.ok (), l.after l.kept.store saves []) := by
  induction saves generalizing l with
  | nil => rw [saveAll, run_pure, after_nil]; rfl
  | cons save saves ih =>
    rw [saveAll, run_bind, run_modify]
    dsimp only
    rw [ih]
    simp [after, KeptStore.keep, Storage.saveAll, Function.comp_def]

theorem run_tellAll (notices : List Notice) :
    (tellAll notices : Step ε _).run l = (.ok (), { l with told := l.told ++ notices }) := by
  induction notices generalizing l with
  | nil => simp [tellAll]
  | cons n notices ih =>
    rw [tellAll, run_bind, run_modify]
    dsimp only
    rw [ih]
    simp

/-- A batch writes and saves and tells nothing before all of it has been checked. -/
theorem run_apply (ws : List Write) :
    (apply ws).run l = match l.kept.store.apply ws with
      | .ok (s, c) => (.ok c.changed, l.after s c.saves c.notices)
      | .error e => (.error e, l) := by
  rw [apply, run_bind, run_stageAll, Store.apply]
  cases l.kept.store.stageAll ws with
  | error e => rfl
  | ok staged =>
    have horder : (staged.foldl (fun b w => b.write w.1 w.2)
        (⟨l.kept.store, []⟩ : Store.Batch)).store.computedOrder = l.kept.store.computedOrder :=
      Store.computedOrder_eq ((Store.Batch.Tracks.start _).writes staged).frame
    dsimp only
    rw [run_bind, run_writeAll]
    dsimp only
    rw [run_bind, run_store]
    dsimp only [withStore]
    rw [run_bind, run_refreshAll, horder]
    simp only [run_bind, run_store, run_saveAll, run_tellAll, run_pure]
    simp [after, withStore, KeptStore.keep, bind, Except.bind]

/-- An action that is neither a sequence nor a delay reads, and then is one batch. -/
theorem run_execute (locals : Dict Value) (a : Action) :
    (execute locals a).run l = match Action.runLeaf locals a { store := l.kept.store } with
      | .ok t => (.ok t.changed, l.after t.store t.saves t.notices)
      | .error f => (.error f.error, l) := by
  rw [execute, run_bind, run_store, Action.runLeaf]
  dsimp only
  rw [run_bind, run_result]
  cases a.writes l.kept.store locals with
  | error e => rfl
  | ok ws =>
    dsimp only
    rw [run_adapt, run_apply]
    cases happly : l.kept.store.apply ws with
    | error e => rfl
    | ok r =>
      obtain ⟨s, c⟩ := r
      have hadd : addAllNew [] c.changed = c.changed :=
        addAllNew_of_disjoint (by simpa using Store.nodup_changed happly)
      simp [Trace.add, hadd, Except.mapError]

end Writing

/-! ## Operations -/

namespace Operation

/-- What an operation makes of a store, computed from it without a change on the way. -/
def effect (k : KeptStore) : Operation → Except ActionError Trace
  | declare d => ((k.store.declare k.load d).map fun store => { store }).mapError .ofStore
  | apply ws => committed (k.store.apply ws)
  | set name value => committed (k.store.set name value)
  | reset name => committed (k.store.reset name)
  | execute locals a _ => (Action.runLeaf locals a { store := k.store }).mapError Failure.error
where
  committed (x : Except StoreError (Store × Commit)) : Except ActionError Trace :=
    (x.map fun (s, c) => ⟨s, c.changed, c.saves, c.notices⟩).mapError .ofStore

/-- An operation leaves what it makes of the store, or everything as it was. -/
theorem perform_eq (op : Operation) (l : LiveStore) :
    op.perform l = match op.effect l.kept with
      | .ok t => (.ok t.changed, l.after t.store t.saves t.notices)
      | .error e => (.error e, l) := by
  have hcommitted : ∀ ws, Step.run (ExceptT.adapt .ofStore (LiveStore.apply ws)) l =
      match effect.committed (l.kept.store.apply ws) with
      | .ok t => (.ok t.changed, l.after t.store t.saves t.notices)
      | .error e => (.error e, l) := by
    intro ws
    rw [run_adapt, run_apply]
    cases l.kept.store.apply ws with
    | error e => rfl
    | ok r => rfl
  cases op with
  | declare d =>
    rw [perform, steps, effect, run_adapt, run_bind, run_declare]
    cases l.kept.store.declare l.kept.load d with
    | error e => rfl
    | ok s => simp [withStore, after_nil, Except.mapError, Except.map]
  | apply ws => exact hcommitted ws
  | set name value => exact hcommitted [.set name value]
  | reset name => exact hcommitted [.reset name]
  | execute locals a isLeaf =>
    rw [perform, steps, effect, run_execute]
    cases Action.runLeaf locals a { store := l.kept.store } with
    | error f => rfl
    | ok t => rfl

/-- An operation that fails leaves the store, all that is saved and all that subscribers have been
told as they were, and it fails as the computed one does. -/
theorem unchanged_of_failed (op : Operation) (l : LiveStore) {e : ActionError}
    (h : (op.perform l).1 = .error e) : (op.perform l).2 = l ∧ op.effect l.kept = .error e := by
  rw [perform_eq] at h ⊢
  cases heffect : op.effect l.kept with
  | error e' =>
    rw [heffect] at h
    exact ⟨rfl, congrArg _ (Except.error.inj h)⟩
  | ok t =>
    rw [heffect] at h
    cases h

end Operation

/-- A computed variable that waits for another one, and with its storage. -/
def waiting : LiveStore :=
  LiveStore.run { kept := ⟨{}, some (.memory {} false false)⟩ } [.declare
    { name := "a", type := .computed, initial := .undefined, expression := some "$vars.b" }]

/-- The variable that it waits for, but which reads it in turn. -/
def closing : Operation := .declare
  { name := "b", type := .computed, initial := .undefined, expression := some "$vars.a" }

/-- The second variable is put in, found to be on a cycle and taken out. -/
theorem unchanged_closing :
    (closing.perform waiting).1 = .error (.store (.cyclicComputed "a")) ∧
      (closing.perform waiting).2 = waiting ∧ waiting.kept.store.names = ["a"] := by
  have h : (closing.perform waiting).1 = .error (.store (.cyclicComputed "a")) := by
    decide +kernel
  exact ⟨h, (closing.unchanged_of_failed waiting h).1, by decide +kernel⟩

end LiveStore

end Archipelago
