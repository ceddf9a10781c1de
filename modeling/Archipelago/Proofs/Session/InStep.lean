import Archipelago.Proofs.Page.Coverage
import Archipelago.Proofs.Session.Sound

/-!
# The page shows what the stores hold

An island is in step if its placeholder and its handlers are what a rendering from the store of its
template gives. After a batch the islands that read none of the changed variables still are, and
the others are late until they have been rendered anew. What carries the proof is the list of the
islands that are late.
-/

namespace Archipelago

open Hydration (MountedComponent State)

/-- No rendering of the island reads a variable outside the reads that it is refreshed by. -/
def Island.Covered (limits : EvalLimits) (i : Island) : Prop :=
  Page.Known.Covers ⟨limits, Session.subtreeReads i.node⟩ [] i.node

/-- A covered island looks the same in all scopes that agree on its reads. -/
theorem Page.Renderer.renderIsland_congr (r : Renderer) {i : Island} (hi : i.Covered r.eval)
    {s t : Scope} (h : Scope.AgreeOn (Session.subtreeReads i.node) s t) :
    r.renderIsland t i = r.renderIsland s i := by
  have hv : View.Within r.eval [] { limits := r.eval, scope := s } :=
    ⟨rfl, fun name hn => by cases hn⟩
  have hn := node_congr (k := ⟨r.eval, Session.subtreeReads i.node⟩) r true hv h i.node hi
  unfold renderIsland draw
  rw [← hn]
  rfl

namespace Session

/-- What a mounted island shows and listens to is what the store gives. -/
structure Mounted.Current (r : Page.Renderer) (d : Document) (store : Store) (m : Mounted) :
    Prop where
  shows : d.Shows m.placeholder
    (Page.Node.htmlAll (r.renderIsland store.toScope m.island).children)
  handlers : m.handlers = (r.renderIsland store.toScope m.island).handlers

/-- All covered islands are in step, but perhaps not those that are late. -/
structure InStepBut (late : List String) (s : Session) : Prop extends Sound s where
  current : ∀ id m t store, Dict.get? s.mounted id = some m → m.template = some t →
    Dict.get? s.stores t = some store → m.island.Covered s.config.eval → id ∉ late →
      m.Current s.renderer s.document store

/-- Every island shows what its variables are. -/
abbrev InStep (s : Session) : Prop := s.InStepBut []

namespace InStepBut

variable {late : List String} {s : Session}

theorem of_eq {t : Session} (h : s.InStepBut late) (hd : t.document = s.document)
    (hm : t.mounted = s.mounted) (hs : t.stores = s.stores) (hc : t.config = s.config) :
    t.InStepBut late where
  toSound := h.toSound.of_eq hd hm hs
  current id m tpl store hget ht hstore hcov hlate := by
    have hr : t.renderer = s.renderer := by rw [renderer, renderer, hc]
    have := h.current id m tpl store (hm ▸ hget) ht (hs ▸ hstore) (hc ▸ hcov) hlate
    exact ⟨hd ▸ hr ▸ this.shows, hr ▸ this.handlers⟩

/-- Work on a node that no island has taken. -/
theorem document (h : s.InStepBut late) {d : Document} {n : NodeId}
    (hk : Document.Keeps n s.document d)
    (hn : s.document.attr? n Hydration.stateAttr ≠ some State.hydrated.name) :
    InStepBut late { s with document := d } where
  toSound := h.toSound.document hk hn
  current id m t store hm ht hstore hcov hlate := by
    have := h.current id m t store hm ht hstore hcov hlate
    exact ⟨this.shows.of_keeps hk (h.toSound.placeholder_ne hm hn), this.handlers⟩

/-! ## Refreshing -/

/-- An island that is rendered anew is no longer late. -/
theorem rerender {m : Mounted} (h : s.InStepBut (m.island.id :: late))
    (hm : Dict.get? s.mounted m.island.id = some m) {template : String} {store : Store}
    (ht : m.template = some template) (hstore : Dict.get? s.stores template = some store) :
    (s.rerender store m).InStepBut late where
  toSound := h.toSound.rerender store hm (by rw [ht]; exact Option.some_ne_none _)
  current id x t st hx hxt hst hcov hlate := by
    obtain ⟨timers, hmounted, hdocument, hstores, hconfig⟩ := rerender_eq s store m
    have hr : (s.rerender store m).renderer = s.renderer := by rw [renderer, renderer, hconfig]
    rw [hmounted, Dict.get?_insert] at hx
    rw [hstores] at hst
    split at hx
    · obtain rfl := Option.some.inj hx
      obtain rfl : template = t := Option.some.inj (ht.symm.trans hxt)
      obtain rfl : store = st := Option.some.inj (hstore.symm.trans hst)
      obtain ⟨_, _, helement⟩ := Document.hasElement_of_attr? (h.taken _ m hm)
      refine ⟨?_, by rw [hr]⟩
      rw [hdocument, hr]
      exact (helement.setInnerHtml _).1
    · rename_i hne
      have hlate' : id ∉ m.island.id :: late := fun hmem =>
        (List.mem_cons.1 hmem).elim (fun he => hne he.symm) hlate
      have hcur := h.current id x t st hx hxt hst (hconfig ▸ hcov) hlate'
      have hplace : x.placeholder ≠ m.placeholder := fun he => hne (h.apart _ _ m x hm hx he.symm)
      refine ⟨?_, hr ▸ hcur.handlers⟩
      rw [hdocument, hr]
      exact hcur.shows.of_keeps (Document.keeps_setInnerHtml _ _ _) hplace

/-- After a batch only those islands are late that show something of which it has told. -/
theorem store (h : s.InStep) {template : String} {store : Store}
    (hstore : Dict.get? s.stores template = some store) {u : Trace}
    (hu : Trace.Reaches { store } u) (storage : Option Storage) :
    InStepBut ((s.stale template (u.notices.map (·.name))).map (·.island.id))
      { s with stores := Dict.insert s.stores template u.store, storage } where
  toSound :=
    h.toSound.store template ((h.heard template store hstore).of_frame hu.frame.symm) storage
  current id m t st hm ht hst hcov hlate := by
    rw [Dict.get?_insert] at hst
    split at hst
    · rename_i he
      subst he
      obtain rfl := Option.some.inj hst
      have hcur := h.current id m template store hm ht hstore hcov (by simp)
      have hreads := (h.driven id m template hm ht).2.1
      have hsilent : ∀ name ∈ subtreeReads m.island.node, name ∉ u.notices.map (·.name) := by
        intro name hname hnotice
        refine hlate (List.mem_map.2 ⟨m, List.mem_filter.2 ⟨?_, ?_⟩, h.named id m hm⟩)
        · exact List.mem_map.2 ⟨(id, m), Dict.mem_of_get? hm, rfl⟩
        · rw [← hreads] at hname
          simp only [Mounted.shows, Bool.and_eq_true, decide_eq_true_eq, List.any_eq_true]
          exact ⟨ht, name, hnotice, hname⟩
      have hagree : Scope.AgreeOn (subtreeReads m.island.node) store.toScope u.store.toScope := by
        refine ⟨fun name hname => ?_, (Store.resident_eq hu.frame).symm⟩
        show (Dict.get? store.vars name).map _ = (Dict.get? u.store.vars name).map _
        rw [hu.get?_of_silent (h.heard template store hstore) (hsilent name hname)]
      have hrender := s.renderer.renderIsland_congr (i := m.island) hcov hagree
      refine ⟨?_, ?_⟩
      · exact hrender ▸ hcur.shows
      · exact hcur.handlers.trans (congrArg Page.Content.handlers hrender.symm)
    · exact h.current id m t st hm ht hst hcov (by simp)

theorem refresh {template : String} {store : Store} {names : List String}
    (h : s.InStepBut ((s.stale template names).map (·.island.id)))
    (hstore : Dict.get? s.stores template = some store) :
    (s.refresh template store names).1.InStep := by
  rw [refresh_eq]
  refine (foldl_rerender (Q := fun ms s => s.InStepBut (ms.map (·.island.id)) ∧
    Dict.get? s.stores template = some store ∧ ∀ m ∈ ms, m.template = some template) ?_ _
    (h.toSound.nodup_stale template names) s (fun m hm => h.toSound.get?_of_stale hm)
    ⟨h, hstore, fun m hm => (mem_stale hm).2⟩).1
  rintro m ms s ⟨hs, hstore, ht⟩ hm
  refine ⟨hs.rerender hm (ht m List.mem_cons_self) hstore, ?_,
    fun m' hm' => ht m' (List.mem_cons_of_mem _ hm')⟩
  obtain ⟨-, -, -, hstores, -⟩ := rerender_eq s store m
  rw [hstores]
  exact hstore

theorem fire (h : s.InStep) (island : String) {run : Trace → Outcome} (hrun : ByBatches run) :
    (s.fire island run).1.InStep := by
  rcases fire_cases s island hrun with he | ⟨m, template, st, u, storage, pending, hm, ht,
    hstore, hreach, he⟩
  · rwa [he]
  · rw [he]
    exact ((store h hstore hreach storage).refresh (Dict.get?_insert_self _ _ _)).of_eq
      rfl rfl rfl rfl

/-! ## Islands that come and go -/

/-- A store comes to life before any island of its template. -/
theorem ensure (h : s.InStep) {s' : Session} {template : String} {resident : Resident}
    {st : Store} (he : s.ensureStore template resident = .ok (s', st)) : s'.InStep := by
  refine ⟨h.toSound.ensure he, ?_⟩
  intro id m t store hm ht hstore hcov hlate
  rcases ensureStore_eq_ok he with ⟨rfl, -⟩ | ⟨hnone, t', hnew, rfl⟩
  · exact h.current id m t store hm ht hstore hcov hlate
  · obtain ⟨-, -, old, hold⟩ := h.driven id m t hm ht
    rw [Dict.get?_insert] at hstore
    split at hstore
    · rename_i he
      rw [he, hold] at hnone
      contradiction
    · exact h.current id m t store hm ht hstore hcov hlate

theorem settle (h : s.InStep) (p : Pass) {island : Island} {placeholder : NodeId}
    (c : MountedComponent) {o : Opening}
    (htaken : s.document.attr? placeholder Hydration.stateAttr = some State.hydrating.name)
    (hopens : s.Opens island o) : (s.settle p island placeholder c o).InStep where
  toSound := h.toSound.settle p c htaken hopens
  current id x t st hx hxt hst hcov hlate := by
    obtain ⟨timers, hmounted, hdocument, hstores, hconfig⟩ := settle_eq s p island placeholder c o
    have hr : (s.settle p island placeholder c o).renderer = s.renderer := by
      rw [renderer, renderer, hconfig]
    rw [hmounted, Dict.get?_insert] at hx
    rw [hstores] at hst
    split at hx
    · obtain rfl := Option.some.inj hx
      rcases hopens with ⟨html, rfl⟩ | ⟨store, hstore, rfl⟩
      · cases hxt
      · obtain rfl : island.templateId = t := Option.some.inj hxt
        obtain rfl : store = st := Option.some.inj (hstore.symm.trans hst)
        obtain ⟨_, _, helement⟩ := Document.hasElement_of_attr? htaken
        refine ⟨?_, by rw [hr]; rfl⟩
        rw [hdocument, hr]
        exact ((helement.setInnerHtml _).1.setAttr _ _ _).setAttr _ _ _
    · have hcur := h.current id x t st hx hxt hst (hconfig ▸ hcov) hlate
      have hfree : x.placeholder ≠ placeholder :=
        h.toSound.placeholder_ne hx (by rw [htaken]; decide)
      refine ⟨?_, hr ▸ hcur.handlers⟩
      rw [hdocument, hr]
      exact ((hcur.shows.of_keeps (Document.keeps_setInnerHtml _ _ _) hfree).setAttr _ _ _).setAttr
        _ _ _

theorem fail (h : s.InStep) {placeholder : NodeId} (e : HydrationError)
    (hn : s.document.attr? placeholder Hydration.stateAttr ≠ some State.hydrated.name) :
    (s.fail placeholder e).InStep := by
  unfold Session.fail
  dsimp only
  split
  · exact h.document (Document.keeps_setAttr _ _ _ _) hn
  · exact h.document ((Document.keeps_setAttr _ _ _ _).trans (Document.keeps_setInnerHtml _ _ _)) hn

theorem unmountOne (h : s.InStep) (r : CleanupReport) (id : String) :
    (Session.unmountOne s r id).1.InStep := by
  refine ⟨h.toSound.unmountOne r id, ?_⟩
  unfold Session.unmountOne
  split
  · exact h.current
  · intro id' x t st hx hxt hst hcov hlate
    rw [Dict.get?_erase] at hx
    split at hx
    · contradiction
    · have hcur := h.current id' x t st hx hxt hst hcov hlate
      exact ⟨(hcur.shows.removeAttr _ _).removeAttr _ _, hcur.handlers⟩

theorem dropStores (h : s.InStep) : s.dropStores.InStep where
  toSound := h.toSound.dropStores
  current id m t store hm ht hstore := by
    refine h.current id m t store hm ht ?_
    have := (Dict.get?_filter_key s.stores
      (fun name => s.mounted.any fun e => decide (e.2.template = some name)) t).symm.trans hstore
    split at this
    · exact this
    · contradiction

end InStepBut

/-- Every step keeps the islands in step. -/
theorem inStep_stable : Stable InStep where
  load t scope hs := hs.of_eq rfl rfl rfl rfl
  pop time hs := hs.of_eq rfl rfl rfl rfl
  advanceTo time hs := hs.of_eq rfl rfl rfl rfl
  fire island hs hrun := hs.fire island hrun
  take hs hid hfree := hs.document (Document.keeps_setAttr _ _ _ _) (ne_hydrated_of_isFree hfree)
  ensure hs he := hs.ensure he
  settle hs htaken _ hopens := hs.settle _ _ htaken hopens
  fail e hs htaken := hs.fail e (by rw [htaken]; decide)
  record island outcome hs := hs.of_eq rfl rfl rfl rfl
  unmountOne r id hs := hs.unmountOne r id
  dropStores hs := hs.dropStores

end Session

end Archipelago
