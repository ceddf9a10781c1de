import Archipelago.Proofs.Page.Static
import Archipelago.Proofs.Session.Events
import Archipelago.Proofs.Store.Agreement

/-!
# Pages of one template

Whatever is asked for and kept, and whatever has been fired: pages of one template for one resident
differ inside of islands only. All that events write counts as reactive, and so do the variables
that are kept, those that are asked for, and all that is computed from these. No other variable ever
differs, and the nodes that are no islands read no others.
-/

namespace Archipelago

open Markup (RawNode)
open Page (Handler Makes Renderer)

/-! ## Events -/

/-- A handler that writes nothing but these variables. -/
structure Page.Handler.WritesIn (names : List String) (h : Handler) : Prop where
  actions : Action.targetsAll h.actions ⊆ names
  input : ∀ b, h.input = some b → b.var ∈ names

theorem Page.Handler.WritesIn.mono {names more : List String} {h : Handler} (hw : h.WritesIn names)
    (hsub : names ⊆ more) : h.WritesIn more :=
  ⟨List.Subset.trans hw.actions hsub, fun b hb => hsub (hw.input b hb)⟩

/-- A handler writes what the node writes that makes it. -/
theorem Page.writesIn_of_makes {names : List String} {v : View} {n : Template.Node}
    (hb : ∀ b ∈ n.bindings, b.targets ⊆ names) (hi : ∀ var, n.inputVar? = some var → var ∈ names)
    {h : Handler} (hm : Makes v n h) : h.WritesIn names := by
  have hactions : Action.targetsAll (bindingActions n) ⊆ names := by
    refine Action.targetsAll_subset_iff.2 fun a ha => ?_
    obtain ⟨b, hbmem, ha⟩ := List.mem_flatMap.1 ha
    exact Action.targetsAll_subset_iff.1 (hb b hbmem) a ha
  unfold Makes at hm
  unfold Template.Node.inputVar? at hi
  split at hm
  · rw [hm]
    exact ⟨hactions, nofun⟩
  · rename_i hd
    rw [hd] at hi
    obtain ⟨var, checkbox, hvar, rfl⟩ := hm
    refine ⟨hactions, fun b hb => ?_⟩
    obtain rfl := Option.some.inj hb
    exact hi var hvar
  · rename_i hd
    rw [hd] at hi
    obtain ⟨var, checkbox, hvar, rfl⟩ := hm
    refine ⟨hactions, fun b hb => ?_⟩
    obtain rfl := Option.some.inj hb
    exact hi var hvar
  · obtain ⟨b, hbmem, rfl⟩ := hm
    exact ⟨hb b hbmem, nofun⟩
  · obtain ⟨b, hbmem, rfl⟩ := hm
    exact ⟨hb b hbmem, nofun⟩
  · cases hm

theorem Session.writeField_writes {names : List String} {var : String} (hvar : var ∈ names)
    (value : Value) {t u : Trace} (hu : t.Writes names u) :
    Yields (fun f : Failure => t.Writes names f.trace) (t.Writes names)
      (writeField var value u) := by
  unfold writeField
  split
  · rename_i hset
    refine hu.batch (fun w hw => ?_) hset
    rw [List.mem_singleton.1 hw]
    exact hvar
  · exact hu

namespace Template

variable {t : Template} {r : Renderer} {names : List String}

/-- Events write nothing but what the handlers of a template do. -/
theorem Fires.confined (hhandles : ∀ s h, t.Handles r s h → h.WritesIn names)
    {run : Trace → Outcome} (h : t.Fires r run) : Confined names run := by
  induction h with
  | handler _ hh => exact Action.run_confined _ (hhandles _ _ hh).actions
  | @field s h b value _ hh hb =>
    have hwrites := hhandles _ _ hh
    exact fun u v hv => (Session.writeField_writes (hwrites.input b hb) _ hv).bind
      fun w hw => Action.run_confined _ hwrites.actions u w hw
  | @resume run s u pending c _ _ hrun hc ih =>
    exact Continuation.resume_confined (((ih _ _ (.refl { store := s })).ok hrun).2 c hc)

/-! ## Stores -/

/-- The stores of a template for one resident: fresh ones, whatever is asked for and kept, and what
subscriptions and events make of them. -/
inductive Lives (t : Template) (r : Renderer) (resident : Value) : Store → Prop where
  | fresh {params : Dict String} {scope : String} {storage : Option Storage} {k : KeptStore} :
      (⟨{ params, resident, scope, limits := r.eval }, storage⟩ : KeptStore).declareAll t.decls =
        .ok k → Lives t r resident k.store
  | subscribe {s s' : Store} {name : String} {id : Nat} :
      Lives t r resident s → s.subscribe name = .ok (s', id) → Lives t r resident s'
  | fire {s : Store} {run : Trace → Outcome} :
      Lives t r resident s → t.Fires r run →
        Lives t r resident (lastTrace Prod.fst (run { store := s })).store

/-- A store as the declarations build it. -/
def Built (t : Template) (limits : EvalLimits) (resident : Value) (s : Store) : Prop :=
  ∃ params scope load, ({ params, resident, scope, limits } : Store).declareAll load t.decls = .ok s

section

variable {limits : EvalLimits} {resident : Value} {s s' : Store}

theorem Built.declaredAs (h : t.Built limits resident s) :
    s.DeclaredAs t.decls ∧ s.limits = limits := by
  obtain ⟨params, scope, load, hs⟩ := h
  obtain ⟨hdecls, hlimits, -⟩ := (Store.DeclaredAs.blank rfl rfl).declareAll hs
  exact ⟨hdecls, hlimits⟩

/-- Stores that are built for one resident agree on what does not depend on given variables. -/
theorem Built.agreeOff (hgiven : ∀ d ∈ t.decls, Given d → d.name ∈ names)
    (hc : ClosedUnder limits t.decls names) (h : t.Built limits resident s)
    (h' : t.Built limits resident s') : s.AgreeOff names s' := by
  obtain ⟨params, scope, load, hs⟩ := h
  obtain ⟨params', scope', load', hs'⟩ := h'
  have hblank (params : Dict String) (scope : String) :
      ({ params, resident, scope, limits } : Store).Coherent :=
    (Store.DeclaredAs.blank rfl rfl).coherent
  have hagree : Store.AgreeOff names { params, resident, scope, limits }
      { params := params', resident, scope := scope', limits } := ⟨fun _ _ => rfl, rfl, rfl⟩
  exact hagree.declareAll (hblank params scope) (hblank params' scope') hgiven hc hs hs'

/-- What becomes of a store differs from it in nothing but what events write. -/
theorem Lives.exists_built (hfires : ∀ run, t.Fires r run → Confined names run)
    (hc : ClosedUnder r.eval t.decls names) (h : t.Lives r resident s) :
    s.DeclaredAs t.decls ∧ ∃ s₀, t.Built r.eval resident s₀ ∧ s₀.AgreeOff names s := by
  induction h with
  | @fresh params scope storage k hk =>
    obtain ⟨store, hs, hk⟩ := bind_eq_ok.1 hk
    obtain rfl := Except.ok.inj hk
    have hbuilt : t.Built r.eval resident store := ⟨params, scope, _, hs⟩
    exact ⟨hbuilt.declaredAs.1, store, hbuilt, .refl store⟩
  | subscribe _ hsub ih =>
    obtain ⟨hdecls, s₀, hbuilt, hagree⟩ := ih
    unfold Store.subscribe at hsub
    split at hsub
    · obtain ⟨rfl, -⟩ := Prod.mk.inj (Except.ok.inj hsub)
      obtain ⟨⟨hnodup, hnamed, hparsed, horder⟩, hdecls⟩ := hdecls
      exact ⟨⟨⟨hnodup, hnamed, hparsed, horder⟩, hdecls⟩, s₀, hbuilt,
        hagree.vars, hagree.limits, hagree.resident⟩
    · cases hsub
  | @fire s run _ hrun ih =>
    obtain ⟨hdecls, s₀, hbuilt, hagree⟩ := ih
    have hlimits := hbuilt.declaredAs.2.symm.trans hagree.limits
    have hwrites := (hfires run hrun).lastTrace { store := s }
    refine ⟨?_, s₀, hbuilt, hagree.trans (.of_writes hdecls (hlimits ▸ hc) hwrites)⟩
    exact hdecls.of_frame ((hrun.byBatches { store := s }).frame.symm)

/-- Two stores of a template for one resident agree on all that is not reactive. -/
theorem Lives.agreeOff (hfires : ∀ run, t.Fires r run → Confined names run)
    (hgiven : ∀ d ∈ t.decls, Given d → d.name ∈ names) (hc : ClosedUnder r.eval t.decls names)
    (h : t.Lives r resident s) (h' : t.Lives r resident s') : s.AgreeOff names s' := by
  obtain ⟨-, s₀, hbuilt, hagree⟩ := h.exists_built hfires hc
  obtain ⟨-, s₀', hbuilt', hagree'⟩ := h'.exists_built hfires hc
  exact hagree.symm.trans ((hbuilt.agreeOff hgiven hc hbuilt').trans hagree')

end

/-! ## Compiled templates -/

/-- A handler that is made at a node of a tree, marked or not, writes what the tree can write. -/
theorem writesIn_of_marked {root n m : Template.Node} (hn : n ∈ root.walk)
    (hmarked : Island.Survey.Marked n m) {v : Page.View} {h : Handler} (hm : Makes v m h) :
    h.WritesIn (writtenVars root) := by
  refine Page.writesIn_of_makes (fun b hb var hvar => ?_) (fun var hvar => ?_) hm
  · rw [hmarked.bindings] at hb
    refine List.mem_flatMap.2 ⟨n, hn, List.mem_append_left _ (List.mem_flatMap.2 ⟨b, hb, hvar⟩)⟩
  · unfold Node.inputVar? at hvar
    rw [hmarked.dsl?, hmarked.attr?] at hvar
    exact List.mem_flatMap.2 ⟨n, hn, List.mem_append_right _ (Option.mem_toList.2 hvar)⟩

/-- The handlers of a template write what its tree can write. -/
theorem Handles.writesIn {root : Template.Node} {survey : Island.Survey}
    (hextract : (t.root, t.islands) = survey.mark [] root) {s : Store} {h : Handler}
    (hh : t.Handles r s h) : h.WritesIn (writtenVars root) := by
  obtain ⟨hroot, hislands⟩ := Prod.mk.inj hextract
  rcases hh with ⟨e, he, hh⟩ | ⟨i, hi, hh⟩
  · obtain ⟨v, m, hvisits, hm⟩ := (r.draw_only false s.toScope t.root).islandHandlers e he h hh
    have hmem := hvisits.mem_walk
    rw [hroot] at hmem
    obtain ⟨n, hn, hmarked⟩ := survey.exists_marked [] root m hmem
    exact writesIn_of_marked hn hmarked hm
  · obtain ⟨v, m, hvisits, hm⟩ := (r.draw_only true s.toScope i.node).handlers h hh
    rw [hislands] at hi
    obtain ⟨n, hn, -, used, rfl⟩ :=
      survey.from_of_mem_mark (List.forall_mem_nil _) root (List.Subset.refl _) i hi
    have hmem := hvisits.mem_walk
    rw [Node.walk_eq] at hmem
    rcases List.mem_cons.1 hmem with rfl | hmem
    · exact writesIn_of_marked hn ⟨rfl, rfl, rfl, rfl⟩ hm
    · have hbelow := Node.walk_subset root n hn
      rw [n.walk_eq] at hbelow
      exact writesIn_of_marked (hbelow (List.mem_cons_of_mem _ hmem)) ⟨rfl, rfl, rfl, rfl⟩ hm

/-- What the nodes read that are no islands. -/
def staticReads (survey : Island.Survey) (root : Template.Node) : List String :=
  (root.walk.filter fun n => !Island.isInteractive survey.reactive n).flatMap Node.reads

theorem mem_staticReads {survey : Island.Survey} {root : Template.Node} {name : String} :
    name ∈ staticReads survey root ↔
      ∃ n ∈ root.walk, Island.isInteractive survey.reactive n = false ∧ name ∈ n.reads := by
  simp [staticReads, and_assoc]

/-- What a compilation gives is the ground on which islands are marked. -/
theorem ground_of_formed {sc : Scoping} (hl : sc.limits.Le {}) (survey : Island.Survey)
    {places : List Span} {nodes : List Template.Node} (hformed : Node.FormedAll places nodes)
    (hchecked : sc.Checked [] (.fragment nodes)) :
    Page.Ground sc survey (staticReads survey (.fragment nodes)) [.fragment nodes] := by
  have hwalk : ∀ n ∈ Node.walkAll [.fragment nodes],
      n ∈ (Node.fragment nodes).walk ∧ (n = .fragment nodes ∨ n.Formed places) := by
    intro n hn
    rw [Node.walkAll, Node.walkAll, List.append_nil] at hn
    refine ⟨hn, ?_⟩
    rw [Node.walk_eq] at hn
    exact (List.mem_cons.1 hn).imp_right (hformed.nodes n)
  refine ⟨hl, ⟨hchecked, True.intro⟩, fun n hn => ?_, fun n hn => ?_,
    fun n hn hinert dep hdep => ?_⟩
  · rcases (hwalk n hn).2 with rfl | hn
    · rfl
    · exact hn.unmarked
  · rcases (hwalk n hn).2 with rfl | hn
    · exact fun hb => absurd rfl hb
    · exact hn.handles
  · exact mem_staticReads.2 ⟨n, (hwalk n hn).1, hinert, hdep⟩

/-- Outside of islands, the pages of a template for one resident are the same, whatever the address
and the storage say and whatever has been fired. No element of the markup repeats an attribute. -/
theorem static_of_compile {c : Config} {src : String} {raw : List RawNode} {t : Template}
    (hlimits : c.eval.Le {}) (hraw : Markup.parse c.compiler.maxDepth src = .ok raw)
    (hd : RawNode.DistinctAll raw) (ht : (compile c src).template? = some t) {r : Renderer}
    (hr : r.eval = c.eval) {resident : Value} {s s' : Store} (hs : t.Lives r resident s)
    (hs' : t.Lives r resident s') :
    (r.render s.toScope t.root).root.erased = (r.render s'.toScope t.root).root.erased ∧
      (r.render s.toScope t.root).islands = (r.render s'.toScope t.root).islands := by
  obtain ⟨raw', nodes, declared, hraw', hformed, hchecked, hdeclares, hdecls, hextract⟩ :=
    Compile.exists_tree ht
  obtain rfl := Except.ok.inj (hraw.symm.trans hraw')
  let root := Node.fragment nodes
  let survey : Island.Survey := ⟨t.id, reactive root t.decls⟩
  have hhandles : ∀ s h, t.Handles r s h → h.WritesIn survey.reactive := fun s h hh =>
    (hh.writesIn hextract).mono (written_subset_reactive root t.decls)
  have hclosed : ClosedUnder r.eval t.decls survey.reactive := by
    rw [hr]
    have hall := closed_reactive hdeclares hlimits root
    rwa [← hdecls] at hall
  have hagree : s.AgreeOff survey.reactive s' :=
    hs.agreeOff (fun run hrun => hrun.confined hhandles)
      (fun d hd hg => given_mem_reactive root t.decls hd hg) hclosed hs'
  have hground := ground_of_formed hlimits survey hformed (hchecked hd)
  have hshared : Page.Known.Shared ⟨r.eval, staticReads survey root⟩
      (Page.start r s.toScope) s'.toScope := by
    refine ⟨hr ▸ hlimits, ⟨rfl, nofun⟩, fun name hname => ?_, hagree.resident⟩
    obtain ⟨n, hn, hinert, hreads⟩ := mem_staticReads.1 hname
    exact hagree.lookup (Island.notMem_of_mem_reads hinert name hreads)
  have halike := Page.alike_mark r survey hshared [] root hground {} {} ⟨rfl, rfl⟩
  rw [show t.root = (survey.mark [] root).1 from congrArg Prod.fst hextract]
  exact ⟨congrArg Page.Node.fragment halike.1, halike.2.islands⟩

/-! ## Two templates -/

/-- The fresh variables of a template for a page that is asked for, with nothing kept. -/
def freshStore (t : Template) (params : Dict String) (resident : Value) : Option Store :=
  ((⟨{ params, resident }, none⟩ : KeptStore).declareAll t.decls).toOption.map (·.store)

theorem lives_freshStore {params : Dict String} {resident : Value} {s : Store} (hr : r.eval = {})
    (h : t.freshStore params resident = some s) : t.Lives r resident s := by
  obtain ⟨k, hk, rfl⟩ := Option.map_eq_some_iff.1 h
  have hk : (⟨{ params, resident, scope := "default", limits := r.eval }, none⟩ :
      KeptStore).declareAll t.decls = .ok k := hr ▸ toOption_eq_some.1 hk
  exact .fresh hk

theorem Lives.reaches {resident : Value} {s : Store} (h : t.Lives r resident s) :
    t.Reaches r.eval s := by
  induction h with
  | fresh hk => exact .fresh hk
  | subscribe _ hsub ih => exact ih.subscribe hsub
  | fire _ hrun ih => exact hrun.reaches ih

/-- A title, and a field for a name. -/
def labelMarkup : String := "<Var name=\"to\"/><b>To</b><TextInput var=\"to\"/>"

/-- To type a name into its field changes the page inside of its island only. -/
theorem static_label :
    ∃ t s s', (compile {} labelMarkup).template? = some t ∧
      t.Lives (.ofConfig {}) .undefined s ∧ t.Lives (.ofConfig {}) .undefined s' ∧
      ((Renderer.ofConfig {}).render s.toScope t.root).root.html ≠
        ((Renderer.ofConfig {}).render s'.toScope t.root).root.html ∧
      ((Renderer.ofConfig {}).render s.toScope t.root).root.erased =
        ((Renderer.ofConfig {}).render s'.toScope t.root).root.erased := by
  let typed (h : Handler) (b : Page.InputBinding) (u : Trace) : Outcome := do
    Action.run h.locals h.actions
      (← Session.writeField b.var (Session.fieldValue b (.string "eve")) u)
  have hraw : (Markup.parse 64 labelMarkup).toOption.map (fun raw =>
      decide (RawNode.DistinctAll raw)) = some true := by
    decide +kernel
  have he : ((compile {} labelMarkup).template?.bind fun t =>
      (t.freshStore [] .undefined).bind fun s => t.islands.findSome? fun i =>
        ((Renderer.ofConfig {}).renderIsland s.toScope i).handlers.findSome? fun h =>
          h.input.map fun b =>
            decide (((Renderer.ofConfig {}).render s.toScope t.root).root.html ≠
              ((Renderer.ofConfig {}).render (lastTrace Prod.fst
                (typed h b { store := s })).store.toScope t.root).root.html)) = some true := by
    decide +kernel
  obtain ⟨raw, hparse, hraw⟩ := Option.map_eq_some_iff.1 hraw
  obtain ⟨t, ht, he⟩ := Option.bind_eq_some_iff.1 he
  obtain ⟨s, hs, he⟩ := Option.bind_eq_some_iff.1 he
  obtain ⟨i, hi, he⟩ := List.exists_of_findSome?_eq_some he
  obtain ⟨h, hh, he⟩ := List.exists_of_findSome?_eq_some he
  obtain ⟨b, hb, he⟩ := Option.map_eq_some_iff.1 he
  have hlives : t.Lives (.ofConfig {}) .undefined s := lives_freshStore rfl hs
  have hfired := hlives.fire (.field (.string "eve") hlives.reaches (.inr ⟨i, hi, hh⟩) hb)
  exact ⟨t, s, _, ht, hlives, hfired, of_decide_eq_true he,
    (static_of_compile (c := {}) (.refl _) (toOption_eq_some.1 hparse) (of_decide_eq_true hraw) ht
      rfl hlives hfired).1⟩

/-- A loop and a text in it that repeat an attribute: what is checked of them is not what they
show. -/
def disguisedMarkup : String :=
  "<Var name=\"n\" type=\"urlParam\" initial=\"old\"/>"
    ++ "<ForEach var=\"$resident.posts\" item=\"a\" item=\"($vars\">"
    ++ "<ShowVar var=\"n\" var=\"($vars.n)\"/></ForEach>"

/-- What stands outside of islands can depend on what is asked for. -/
theorem not_static_disguised :
    ¬∀ (c : Config) (src : String) (t : Template), (compile c src).template? = some t →
      c.eval.Le {} → ∀ (resident : Value) (s s' : Store), t.Lives (.ofConfig c) resident s →
        t.Lives (.ofConfig c) resident s' →
          ((Renderer.ofConfig c).render s.toScope t.root).root.erased =
            ((Renderer.ofConfig c).render s'.toScope t.root).root.erased := by
  intro h
  let posts : Value := .object [("posts", .array [.null])]
  have he : ((compile {} disguisedMarkup).template?.bind fun t =>
      (t.freshStore [] posts).bind fun s => (t.freshStore [("n", "new")] posts).map fun s' =>
        decide (((Renderer.ofConfig {}).render s.toScope t.root).root.erased.html ≠
          ((Renderer.ofConfig {}).render s'.toScope t.root).root.erased.html)) = some true := by
    decide +kernel
  obtain ⟨t, ht, he⟩ := Option.bind_eq_some_iff.1 he
  obtain ⟨s, hs, he⟩ := Option.bind_eq_some_iff.1 he
  obtain ⟨s', hs', he⟩ := Option.map_eq_some_iff.1 he
  exact of_decide_eq_true he
    (congrArg Page.Node.html (h {} disguisedMarkup t ht (.refl _) posts s s'
    (lives_freshStore rfl hs) (lives_freshStore rfl hs')))

end Template

end Archipelago
