import Archipelago.Proofs.Action.Failures
import Archipelago.Proofs.Compile.Sound
import Archipelago.Proofs.Session.Calls
import Archipelago.Proofs.Store.Calls

/-!
# Events of compiled templates

What is checked when a template is compiled does not fail when it lives: neither a rendering nor an
event meets an avoidable error, whatever has been fired before. The one thing that is not checked
is whether a variable on a cycle is declared at all.
-/

namespace Archipelago

open Markup (RawNode)
open Page (Handler Renderer)

namespace Template

/-- The stores that fresh variables of a template can come to within some limits. -/
inductive Reaches (t : Template) (limits : EvalLimits) : Store → Prop where
  | fresh {params : Dict String} {resident : Value} {scope : String} {storage : Option Storage}
      {k : KeptStore} :
      (⟨{ params, resident, scope, limits }, storage⟩ : KeptStore).declareAll t.decls = .ok k →
        Reaches t limits k.store
  | subscribe {s s' : Store} {name : String} {id : Nat} :
      Reaches t limits s → s.subscribe name = .ok (s', id) → Reaches t limits s'
  /-- A firing writes by batches, be it at its end or at a failure. -/
  | fire {s : Store} {u : Trace} :
      Reaches t limits s → Trace.Reaches { store := s } u → Reaches t limits u.store

/-- The handlers of a page and of its islands. -/
def Handles (t : Template) (r : Renderer) (s : Store) (h : Handler) : Prop :=
  (∃ e ∈ (r.render s.toScope t.root).handlers, h ∈ e.2) ∨
    ∃ i ∈ t.islands, h ∈ (r.renderIsland s.toScope i).handlers

/-- What can be fired: a handler of any rendering, or a sequence that an event has suspended. -/
inductive Fires (t : Template) (r : Renderer) : (Trace → Outcome) → Prop where
  | handler {s : Store} {h : Handler} :
      Reaches t r.eval s → t.Handles r s h → Fires t r (Action.run h.locals h.actions)
  | field {s : Store} {h : Handler} {b : Page.InputBinding} (value : Value) :
      Reaches t r.eval s → t.Handles r s h → h.input = some b →
        Fires t r (fun u => do
          Action.run h.locals h.actions
            (← Session.writeField b.var (Session.fieldValue b value) u))
  | resume {run : Trace → Outcome} {s : Store} {u : Trace} {pending : List Continuation}
      {c : Continuation} :
      Fires t r run → Reaches t r.eval s → run { store := s } = .ok (u, pending) → c ∈ pending →
        Fires t r c.resume

/-- The errors that the renderings of a page and of its islands warn of. -/
def Troubles (t : Template) (r : Renderer) (s : Store) (e : EvalError) : Prop :=
  (∃ w ∈ (r.draw false s.toScope t.root).2.warnings, w.trouble.error? = some e) ∨
    ∃ i ∈ t.islands, ∃ w ∈ (r.draw true s.toScope i.node).2.warnings, w.trouble.error? = some e

variable {sc : Scoping} {missing : String → Prop} {t : Template} {limits : EvalLimits}

/-! ## Stores -/

/-- Every store that a template comes to has the variables that it declares, and no others. -/
theorem Reaches.names {s : Store} (h : t.Reaches limits s) :
    s.limits = limits ∧ s.names = t.decls.map (·.name) := by
  induction h with
  | fresh hk =>
    obtain ⟨store, hs, hk⟩ := bind_eq_ok.1 hk
    obtain rfl := Except.ok.inj hk
    obtain ⟨hdecls, hlimits, -⟩ := (Store.DeclaredAs.blank rfl rfl).declareAll hs
    exact ⟨hlimits, hdecls.names⟩
  | subscribe _ hsub ih =>
    unfold Store.subscribe at hsub
    split at hsub
    · obtain ⟨rfl, -⟩ := Prod.mk.inj (Except.ok.inj hsub)
      exact ih
    · cases hsub
  | fire _ hu ih =>
    exact ⟨(Store.limits_eq hu.frame).trans ih.1, (Store.names_eq hu.frame).trans ih.2⟩

theorem Reaches.ready {s : Store} (h : t.Reaches limits s) (hl : limits = sc.limits)
    (hknown : ∀ name, sc.known name → name ∈ t.decls.map (·.name) ∨ missing name) :
    s.Ready sc missing := by
  obtain ⟨hlimits, hnames⟩ := h.names
  refine ⟨hlimits.trans hl, fun name hname => (hknown name hname).imp_left fun hmem => ?_⟩
  rw [Store.isSome_lookup, hnames]
  exact hmem

/-! ## Events -/

theorem Fires.byBatches {r : Renderer} {run : Trace → Outcome} (h : t.Fires r run) :
    Session.ByBatches run := by
  cases h with
  | handler _ _ => exact Session.run_byBatches _ _
  | field value _ _ _ => exact Session.field_byBatches _ _ _ _
  | resume _ _ _ _ => exact Session.resume_byBatches _

/-- What an event leaves behind, be it at its end or at a failure, can be come to. -/
theorem Fires.reaches {r : Renderer} {run : Trace → Outcome} (h : t.Fires r run) {s : Store}
    (hs : t.Reaches limits s) :
    t.Reaches limits (lastTrace Prod.fst (run { store := s })).store :=
  hs.fire (h.byBatches _)

/-- An event that keeps stores ready, and fails and suspends as checked steps do. -/
def Sound (sc : Scoping) (missing : String → Prop) (run : Trace → Outcome) : Prop :=
  ∀ u : Trace, u.store.Ready sc missing →
    Yields (fun f : Failure => f.error.Excused missing)
      (fun r => r.1.store.Ready sc missing ∧ ∀ c ∈ r.2, sc.CheckedUnder c.locals c.steps) (run u)

theorem sound_handler {h : Handler} (hh : sc.CheckedHandler h) :
    Sound sc missing (Action.run h.locals h.actions) := by
  obtain ⟨names, hnames, hsteps⟩ := hh.steps
  exact fun u hu => Action.run_yields hnames hsteps hu

theorem writeField_yields {var : String} (hvar : sc.known var) (value : Value) {u : Trace}
    (hu : u.store.Ready sc missing) :
    Yields (fun f : Failure => f.error.Excused missing) (fun u => u.store.Ready sc missing)
      (Session.writeField var value u) := by
  have happly : Yields (StoreError.Excused missing) (fun r => r.1.Ready sc missing)
      (u.store.set var value) := hu.apply_yields fun w hw => by
    rw [List.mem_singleton.1 hw]
    exact hvar
  unfold Session.writeField
  split
  · rename_i hset
    exact happly.ok hset
  · rename_i hset
    exact ActionError.excused_ofStore (happly.error hset)

theorem sound_field {h : Handler} (hh : sc.CheckedHandler h) {b : Page.InputBinding}
    (hb : h.input = some b) (value : Value) :
    Sound sc missing (fun u => do
      Action.run h.locals h.actions
        (← Session.writeField b.var (Session.fieldValue b value) u)) :=
  fun _ hu => (writeField_yields (hh.input b hb) _ hu).bind fun _ hu' => sound_handler hh _ hu'

theorem Fires.sound {r : Renderer} (hready : ∀ s, t.Reaches r.eval s → s.Ready sc missing)
    (hhandles : ∀ s h, t.Reaches r.eval s → t.Handles r s h → sc.CheckedHandler h)
    {run : Trace → Outcome} (h : t.Fires r run) : Sound sc missing run := by
  induction h with
  | handler hs hh => exact sound_handler (hhandles _ _ hs hh)
  | field value hs hh hb => exact sound_field (hhandles _ _ hs hh) hb value
  | @resume run s u pending c _ hs hrun hc ih =>
    have hpending := ((ih { store := s } (hready s hs)).ok hrun).2
    exact fun u hu => Continuation.resume_yields (hpending c hc) hu

/-! ## Compiled templates -/

/-- The names that count as variables for being on a cycle, and that are not declared. -/
def Undeclared (raw : List RawNode) (t : Template) (name : String) : Prop :=
  name ∈ (Compile.computedGraph raw).cyclic ∧ name ∉ t.decls.map (·.name)

theorem Reaches.eval_undeclared {raw : List RawNode} {s : Store} (h : t.Reaches limits s)
    {name : String} (hname : Undeclared raw t name) :
    (Expr.var name).eval s.toScope [] = .error (.unknownVariable name) := by
  have hnone : s.toScope.lookup name = none := by
    rw [← Option.not_isSome_iff_eq_none, Store.isSome_lookup, h.names.2]
    exact hname.2
  simp only [Expr.eval, Locals.get?, Option.none_or, hnone]

/-- Whatever has been fired on a template that compiles, no rendering of it and no event fails
with an avoidable error, but perhaps for a variable on a cycle that is not declared. Reading that
one does fail. -/
theorem excused_of_compile {c : Config} {src : String} {raw : List RawNode} {t : Template}
    (hraw : Markup.parse c.compiler.maxDepth src = .ok raw) (hd : RawNode.DistinctAll raw)
    (ht : (compile c src).template? = some t) {r : Renderer} (hr : r.eval = c.eval) :
    (∀ s, t.Reaches r.eval s → ∀ e, t.Troubles r s e → e.Excused (Undeclared raw t)) ∧
      (∀ run, t.Fires r run → ∀ s, t.Reaches r.eval s → ∀ f, run { store := s } = .error f →
        f.error.Excused (Undeclared raw t)) ∧
      ∀ name, Undeclared raw t name → ∀ s, t.Reaches r.eval s →
        (Expr.var name).eval s.toScope [] = .error (.unknownVariable name) := by
  obtain ⟨hroot, hislands⟩ := Compile.checked_of_compile hraw hd ht
  have hready : ∀ s, t.Reaches r.eval s →
      s.Ready ⟨c.eval, Compile.admitted raw t⟩ (Undeclared raw t) := by
    refine fun s hs => hs.ready hr fun name hname => ?_
    by_cases hdecl : name ∈ t.decls.map (·.name)
    · exact .inl hdecl
    · exact .inr ⟨hname.resolve_left hdecl, hdecl⟩
  have hpage := fun s hs => hroot.draw_only r hr false (hready s hs).serves
  have hisland := fun i hi s hs => (hislands i hi).draw_only r hr true (hready s hs).serves
  refine ⟨?_, fun run hrun s hs f hf => ?_, fun name hname s hs => hs.eval_undeclared hname⟩
  · rintro s hs e (⟨w, hw, he⟩ | ⟨i, hi, w, hw, he⟩)
    · exact (hpage s hs).warnings w hw e he
    · exact (hisland i hi s hs).warnings w hw e he
  · refine ((hrun.sound hready ?_) _ (hready s hs)).error hf
    rintro s h hs (⟨e, he, hh⟩ | ⟨i, hi, hh⟩)
    · exact (hpage s hs).islandHandlers e he h hh
    · exact (hisland i hi s hs).handlers h hh

/-! ## Two templates -/

/-- The fresh variables of a template, with nothing asked for and nothing kept. -/
def blankStore (t : Template) : Option Store :=
  ((⟨{}, none⟩ : KeptStore).declareAll t.decls).toOption.map (·.store)

theorem reaches_blankStore {s : Store} (h : t.blankStore = some s) : t.Reaches {} s := by
  obtain ⟨k, hk, rfl⟩ := Option.map_eq_some_iff.1 h
  have hk : (⟨{ params := [], resident := .undefined, scope := "default", limits := {} }, none⟩ :
      KeptStore).declareAll t.decls = .ok k := toOption_eq_some.1 hk
  exact .fresh hk

/-- A number and a button that makes it grow. -/
def tallyMarkup : String :=
  "<Var name=\"n\" type=\"number\" initial=\"0\"/><ShowVar var=\"n\"/>"
    ++ "<Button text=\"more\"><OnClick><Increment var=\"n\"/></OnClick></Button>"

/-- The button of a page can be fired at any time without an avoidable error. -/
theorem excused_tally :
    ∃ raw t s h, Markup.parse 64 tallyMarkup = .ok raw ∧ RawNode.DistinctAll raw ∧
      (compile {} tallyMarkup).template? = some t ∧ t.Reaches {} s ∧
      t.Handles (.ofConfig {}) s h ∧
      ∀ s', t.Reaches {} s' → ∀ f, Action.run h.locals h.actions { store := s' } = .error f →
        f.error.Excused fun _ => False := by
  have hraw : (Markup.parse 64 tallyMarkup).toOption.map (fun raw =>
      decide (RawNode.DistinctAll raw ∧ (Compile.computedGraph raw).cyclic = [])) = some true := by
    decide +kernel
  have hh : ((compile {} tallyMarkup).template?.bind fun t => t.blankStore.bind fun s =>
      t.islands.findSome? fun i =>
        ((Renderer.ofConfig {}).renderIsland s.toScope i).handlers.head?).isSome = true := by
    decide +kernel
  obtain ⟨raw, hparse, hraw⟩ := Option.map_eq_some_iff.1 hraw
  have hparse := toOption_eq_some.1 hparse
  obtain ⟨hd, hcyclic⟩ := of_decide_eq_true hraw
  obtain ⟨h, hh⟩ := Option.isSome_iff_exists.1 hh
  obtain ⟨t, ht, hh⟩ := Option.bind_eq_some_iff.1 hh
  obtain ⟨s, hs, hh⟩ := Option.bind_eq_some_iff.1 hh
  obtain ⟨i, hi, hh⟩ := List.exists_of_findSome?_eq_some hh
  have hhandles : t.Handles (.ofConfig {}) s h := .inr ⟨i, hi, List.mem_of_mem_head? hh⟩
  have hnone : Undeclared raw t = fun _ => False := by
    funext name
    rw [Undeclared, hcyclic]
    exact eq_false fun hname => List.not_mem_nil hname.1
  have hsound := (excused_of_compile (c := {}) hparse hd ht (r := .ofConfig {}) rfl).2.1
  rw [hnone] at hsound
  have hreaches := reaches_blankStore hs
  exact ⟨raw, t, s, h, hparse, hd, ht, hreaches, hhandles, hsound _ (.handler hreaches hhandles)⟩

/-- A variable on a cycle in a place where nothing is declared. -/
def lostMarkup : String :=
  "<Bio><Var name=\"a\" type=\"computed\" expression=\"$vars.a\"/></Bio><ShowVar var=\"a\"/>"

/-- What this page is compiled by under the default settings. -/
def lostRules : Compile.Rules := ⟨{}, {}, 100, ["a"]⟩

/-- A page that has been compiled can show a variable that does not exist. The rules are given with
the statement, since the walk for cycles is not one that evaluates. -/
theorem not_excused_lost :
    ¬∀ (c : Config) (src : String) (raw : List RawNode) (t : Template),
      Markup.parse c.compiler.maxDepth src = .ok raw → RawNode.DistinctAll raw →
        (compile c src).template? = some t → ∀ s, t.Reaches c.eval s →
          ∀ e, t.Troubles (.ofConfig c) s e → e.kind ≠ .unknownVariable := by
  intro h
  have hraw : (Markup.parse 64 lostMarkup).toOption.map (fun raw =>
      decide (RawNode.DistinctAll raw ∧ Compile.computedGraph raw = [("a", ["a"])])) =
        some true := by
    decide +kernel
  have he : ((Markup.parse 64 lostMarkup).toOption.bind fun raw =>
      (Compile.byRules lostRules (Compile.templateId lostMarkup) raw).template?.bind fun t =>
        t.blankStore.bind fun s =>
          (((Renderer.ofConfig {}).draw false s.toScope t.root).2.warnings.findSome? fun w =>
            w.trouble.error?).map (·.kind)) = some .unknownVariable := by
    decide +kernel
  obtain ⟨raw, hparse, hraw⟩ := Option.map_eq_some_iff.1 hraw
  obtain ⟨hd, hgraph⟩ := of_decide_eq_true hraw
  rw [hparse, Option.bind_some] at he
  have hparse := toOption_eq_some.1 hparse
  have hrules : Compile.rules {} raw = lostRules := by
    rw [Compile.rules, hgraph, Dependency.Graph.cyclic_self]
    rfl
  have hsize : lostMarkup.utf8ByteSize ≤ 524288 := by decide +kernel
  have hcompile := Compile.compile_eq_byRules (c := {}) hsize hparse
  rw [hrules] at hcompile
  rw [← hcompile] at he
  obtain ⟨t, ht, he⟩ := Option.bind_eq_some_iff.1 he
  obtain ⟨s, hs, he⟩ := Option.bind_eq_some_iff.1 he
  obtain ⟨e, he, hkind⟩ := Option.map_eq_some_iff.1 he
  obtain ⟨w, hw, he⟩ := List.exists_of_findSome?_eq_some he
  exact h {} lostMarkup raw t hparse hd ht s (reaches_blankStore hs) e (.inl ⟨w, hw, he⟩) hkind

end Template

end Archipelago
