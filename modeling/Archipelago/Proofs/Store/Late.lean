import Archipelago.Proofs.Action.Trace
import Archipelago.Proofs.Store.Atomic
import Archipelago.Proofs.Store.Fresh

/-!
# Declarations that come late

A computed variable may read a name that is declared behind it. To declare this name evaluates the
new variable only. So those that have been waiting for the name, and no others, may be out of date
until something else that they read changes.
-/

namespace Archipelago

namespace LiveStore

/-! ## Runs of operations -/

section Preserves

variable {P : Store → Prop}
  (hdeclare : ∀ load s s' d, P s → s.declare load d = .ok s' → P s')
  (happly : ∀ s s' ws c, P s → s.apply ws = .ok (s', c) → P s')
include hdeclare happly

/-- What declarations and batches keep is kept by every operation, failed ones included. -/
theorem Operation.preserves (op : Operation) {l : LiveStore} (h : P l.kept.store) :
    P (op.perform l).2.kept.store := by
  rw [perform_eq]
  cases heffect : op.effect l.kept with
  | error e => exact h
  | ok t =>
    show P t.store
    have hcommitted : ∀ x, effect.committed x = .ok t → ∃ c, x = .ok (t.store, c) := by
      intro x hx
      obtain ⟨⟨s, c⟩, rfl, rfl⟩ := map_eq_ok.1 (mapError_eq_ok.1 hx)
      exact ⟨c, rfl⟩
    cases op with
    | declare d =>
      obtain ⟨s, hd, rfl⟩ := map_eq_ok.1 (mapError_eq_ok.1 heffect)
      exact hdeclare _ _ s d h hd
    | apply ws =>
      obtain ⟨c, hc⟩ := hcommitted _ heffect
      exact happly _ _ ws c h hc
    | set name value =>
      obtain ⟨c, hc⟩ := hcommitted _ heffect
      exact happly _ _ [.set name value] c h hc
    | reset name =>
      obtain ⟨c, hc⟩ := hcommitted _ heffect
      exact happly _ _ [.reset name] c h hc
    | execute locals a isLeaf =>
      have hreach := Action.runLeaf_reaches locals a { store := l.kept.store }
      rw [mapError_eq_ok.1 heffect] at hreach
      exact hreach.preserves happly h

theorem run_preserves (ops : List Operation) {l : LiveStore} (h : P l.kept.store) :
    P (l.run ops).kept.store := by
  induction ops generalizing l with
  | nil => exact h
  | cons op ops ih => exact ih (op.preserves hdeclare happly h)

end Preserves

/-- Whatever is done to an empty store, it stays in order. -/
theorem coherent_run {l : LiveStore} (hvars : l.kept.store.vars = [])
    (horder : l.kept.store.computedOrder = []) (ops : List Operation) :
    (l.run ops).kept.store.Coherent :=
  run_preserves (fun _ _ _ _ hs hd => hs.declare hd)
    (fun _ _ _ _ hs ha => hs.of_frame (Store.apply_tracks ha).frame.symm) ops
    (Store.DeclaredAs.blank hvars horder).coherent

end LiveStore

open LiveStore (Operation)

/-- A declaration keeps computed variables fresh that do not read the new name, and it keeps all of
them fresh if and only if each one that reads the name has the value already that this gives. -/
theorem LiveStore.fresh_declare_iff {l : LiveStore} (hvars : l.kept.store.vars = [])
    (horder : l.kept.store.computedOrder = []) (ops : List Operation) {d : VariableDecl}
    {k : KeptStore} (hfresh : (l.run ops).kept.store.Fresh)
    (h : (l.run ops).kept.declare d = .ok k) :
    k.store.FreshAt d.name ∧
      (∀ name v, Dict.get? (l.run ops).kept.store.vars name = some v →
        d.name ∉ v.dependencies → k.store.FreshAt name) ∧
      (k.store.Fresh ↔ ∀ name v e, Dict.get? (l.run ops).kept.store.vars name = some v →
        v.expr = some e → d.name ∈ e.dependencies →
          v.value = k.store.computedValue e ∨ v.value.same (k.store.computedValue e) = true) := by
  have hs := coherent_run hvars horder ops
  obtain ⟨s', hd, hk⟩ := bind_eq_ok.1 h
  obtain rfl := Except.ok.inj hk
  have hnew : ∀ {name v}, Dict.get? (l.run ops).kept.store.vars name = some v → d.name ≠ name := by
    rintro name v hv rfl
    exact (Store.declare_eq_ok hs hd).1 (Dict.mem_keys_of_get? hv)
  have hother : ∀ name v, Dict.get? (l.run ops).kept.store.vars name = some v →
      d.name ∉ v.dependencies → s'.FreshAt name := fun name v hv hdep =>
    (hfresh name).declare hs hd (hnew hv) fun w hw => Option.some.inj (hv.symm.trans hw) ▸ hdep
  refine ⟨Store.freshAt_declare hs hd, hother, fun hf name v e hv he hdep => ?_,
    fun hread name => ?_⟩
  · exact hf name v e ((Store.get?_declare_of_ne hs hd (hnew hv)).trans hv) he
  · by_cases hself : d.name = name
    · exact hself ▸ Store.freshAt_declare hs hd
    · intro v e hv he
      have hv' := (Store.get?_declare_of_ne hs hd hself).symm.trans hv
      by_cases hdep : d.name ∈ v.dependencies
      · exact hread name v e hv' he (Store.dependencies_eq he ▸ hdep)
      · exact hother name v hv' hdep v e hv he

/-! ## Examples -/

namespace Store

/-- Do the computed ones of some variables have the values that their expressions give in a
store? -/
def agrees (s : Store) (vars : Dict Variable) : Bool :=
  vars.all fun x => x.2.expr.all fun e => x.2.value.same (s.computedValue e)

theorem same_of_agrees {s : Store} {vars : Dict Variable} (h : s.agrees vars = true) {name : String}
    {v : Variable} {e : Expr} (hv : Dict.get? vars name = some v) (he : v.expr = some e) :
    v.value.same (s.computedValue e) = true := by
  have hall := List.all_eq_true.1 h (name, v) (Dict.mem_of_get? hv)
  rwa [he] at hall

theorem fresh_of_agrees {s : Store} (h : s.agrees s.vars = true) : s.Fresh :=
  fun _ _ _ hv he => .inr (same_of_agrees h hv he)

end Store

namespace LiveStore

/-- A drawer, and a text that is shown when it is open. -/
def drawerDecls : List Operation :=
  [.declare { name := "open", type := .boolean, initial := .bool false },
    .declare { name := "shown", type := .computed, initial := .undefined
               expression := some "$vars.open && $vars.note" }]

/-- A note that is shown while a drawer is open. -/
def drawer : LiveStore := LiveStore.run { kept := ⟨{}, none⟩ } drawerDecls

/-- What lies in the drawer. -/
def note : VariableDecl := { name := "note", type := .string, initial := .string "milk" }

/-- The drawer is closed, so the note that comes late has not been missed. -/
theorem fresh_drawer : ∃ k, drawer.kept.declare note = .ok k ∧ k.store.Fresh := by
  have hk : ((drawer.kept.declare note).toOption.map fun k =>
      k.store.agrees drawer.kept.store.vars) = some true := by
    decide +kernel
  obtain ⟨k, hdeclare, hagrees⟩ := Option.map_eq_some_iff.1 hk
  have hdeclare := toOption_eq_some.1 hdeclare
  have hfresh : drawer.kept.store.Fresh := Store.fresh_of_agrees (by decide +kernel)
  unfold drawer at hfresh hdeclare hagrees ⊢
  refine ⟨k, hdeclare, (fresh_declare_iff (l := { kept := ⟨{}, none⟩ }) rfl rfl drawerDecls hfresh
    hdeclare).2.2.2 ?_⟩
  exact fun name v e hv he _ => .inr (Store.same_of_agrees hagrees hv he)

/-- The variable that another one has been waiting for. -/
def awaited : VariableDecl := { name := "b", type := .string, initial := .string "here" }

/-- A variable that has been waited for comes, and the one that waits is not told. -/
theorem not_fresh_waiting :
    waiting.kept.store.Fresh ∧
      ∃ k, waiting.kept.declare awaited = .ok k ∧ ¬ k.store.Fresh := by
  have hk : ((waiting.kept.declare awaited).toOption.bind fun k =>
      (Dict.get? k.store.vars "a").bind fun v => v.expr.map fun e =>
        (v.value.typeName, (k.store.computedValue e).typeName,
          v.value.same (k.store.computedValue e))) = some ("undefined", "string", false) := by
    decide +kernel
  obtain ⟨k, hdeclare, hk⟩ := Option.bind_eq_some_iff.1 hk
  obtain ⟨v, hv, hk⟩ := Option.bind_eq_some_iff.1 hk
  obtain ⟨e, he, hk⟩ := Option.map_eq_some_iff.1 hk
  obtain ⟨hold, hnow, hsame⟩ : _ ∧ _ ∧ _ := by simpa using hk
  have hfresh : waiting.kept.store.Fresh := Store.fresh_of_agrees (by decide +kernel)
  refine ⟨hfresh, k, toOption_eq_some.1 hdeclare, fun hf => ?_⟩
  rcases hf "a" v e hv he with heq | heq
  · rw [heq, hnow] at hold
    exact absurd hold (by decide)
  · exact absurd (hsame.symm.trans heq) (by decide)

end LiveStore

end Archipelago
