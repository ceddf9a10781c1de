import Archipelago.Proofs.Compile.Extract
import Archipelago.Proofs.Document.Mount
import Archipelago.Proofs.Page.Skeletons
import Archipelago.Proofs.Session.Display
import Archipelago.Proofs.Store.Builds

/-!
# Every island of a page is hydrated

A page with its document and a fresh session have all that hydration asks for: the places of the
islands with their names, a component for each island and a store for the template. A pass takes one
place after the other. What carries the proof is that the places still to come wait as they were.
-/

namespace Archipelago

open Hydration (MountedComponent State mountBuiltIn)
open Document (placeAttributes)
open Page (Placeholder)

/-! ## Components -/

/-- An interactive node is one of a template, or it is about the resident. -/
theorem Island.exists_tag {names : List String} {n : Template.Node}
    (hinteractive : isInteractive names n = true)
    (hhandles : n.bindings ≠ [] → n.tag.handlesEvents = true) :
    ∃ t, n.tag = .dsl t ∧ (DslTag.drivesIsland t.name = true ∨ ∃ r, t = .resident r) := by
  obtain ⟨tag, attributes, children, span, bindings, island⟩ := n
  have hbindings : (Template.NodeTag.handlesEvents tag = true) ∨ bindings = [] := by
    by_cases hb : bindings = []
    · exact .inr hb
    · exact .inl (hhandles hb)
  cases tag with
  | fragment | text | html =>
    rcases hbindings with hb | rfl
    · cases hb
    · cases hinteractive
  | dsl t =>
    refine ⟨t, rfl, ?_⟩
    cases t with
    | showVar | ifChain | switch | forEach | button | textInput | checkbox => exact .inl (by decide)
    | resident r => exact .inr ⟨r, rfl⟩
    | event e =>
      cases e with
      | onClick | onChange | onMount | onInterval => exact .inl (by decide)
    | var | ifBranch | elseIfBranch | elseBranch | caseBranch | defaultBranch | action =>
      rcases hbindings with hb | rfl
      · cases hb
      · cases hinteractive

/-- There is a component for each island that comes from such a node. -/
theorem Hydration.exists_mountBuiltIn (s : Island.Survey) (used : List String)
    {names : List String} {n : Template.Node} (hinteractive : Island.isInteractive names n = true)
    (hhandles : n.bindings ≠ [] → n.tag.handlesEvents = true) (resident : Value) :
    ∃ c, mountBuiltIn (s.islandOf used n) resident = .ok c := by
  obtain ⟨t, htag, ht⟩ := Island.exists_tag hinteractive hhandles
  have hcomponent : (s.islandOf used n).component = t.name := by
    rw [s.component_islandOf, htag]
    rfl
  have hdsl : (s.islandOf used n).node.dsl? = some t := by
    rw [s.node_islandOf]
    unfold Template.Node.dsl?
    rw [htag]
  unfold mountBuiltIn
  rw [hdsl, hcomponent]
  simp only [Option.filter_some, decide_true, if_true]
  rcases ht with hdriven | ⟨r, rfl⟩
  · rw [if_pos hdriven]
    exact ⟨_, rfl⟩
  · have hresident : ∀ props, Page.Resident.components (DslTag.resident r).name props resident =
        some (Page.Resident.html r props resident) :=
      fun props => Page.Resident.components_name r props resident
    rw [hresident]
    split
    · exact ⟨_, rfl⟩
    · exact ⟨_, rfl⟩

namespace Session

/-! ## Stores -/

theorem exists_subscribeAll : (names : List String) → (store : Store) →
    (∀ name ∈ names, name ∈ store.names) → ∃ store', subscribeAll store names = .ok store'
  | [], store, _ => ⟨store, rfl⟩
  | name :: names, store, h => by
    have hcontains : store.contains name = true :=
      Dict.contains_iff.2 (h name List.mem_cons_self)
    unfold subscribeAll Store.subscribe
    rw [if_pos hcontains]
    exact exists_subscribeAll names _ fun other ho => h other (List.mem_cons_of_mem _ ho)

/-- The declarations of a compiled template build a store, whatever is stored or given. -/
theorem exists_newStore {c : Config} {src : String} {t : Template}
    (h : (compile c src).template? = some t) {s : Session} (hconfig : s.config = c)
    (scope : String) (resident : Resident) :
    ∃ store, s.newStore ⟨t, scope⟩ resident = .ok store := by
  unfold newStore
  dsimp only
  generalize hblank : (if s.storage.isSome then _ else _ : Store) = blank
  have hstart : blank.vars = [] ∧ blank.computedOrder = [] ∧ blank.limits = c.eval := by
    rw [← hblank, ← hconfig]
    split
    · exact ⟨rfl, rfl, rfl⟩
    · exact ⟨rfl, rfl, rfl⟩
  obtain ⟨store, hstore, -⟩ := Store.exists_declareAll_of_compile h
    (KeptStore.load ⟨blank, s.storage⟩) hstart.1 hstart.2.1 hstart.2.2
  obtain ⟨store', hstore'⟩ := exists_subscribeAll store.names store fun _ hname => hname
  refine ⟨store', ?_⟩
  unfold KeptStore.declareAll
  rw [hstore]
  exact hstore'

/-! ## What an event leaves alone -/

/-- What is the same after events: whatever the session is given from outside, the islands that are
mounted, and all elements that no island has taken. -/
structure Kept (s s' : Session) : Prop where
  config : s'.config = s.config
  registry : s'.registry = s.registry
  templates : s'.templates = s.templates
  mounted : ∀ id, Dict.get? s.mounted id = none → Dict.get? s'.mounted id = none
  elements : ∀ n x, s.document.core? n = some x →
    Dict.get? x.attributes Hydration.stateAttr ≠ some State.hydrated.name →
    s'.document.core? n = some x

namespace Kept

theorem refl (s : Session) : Kept s s := ⟨rfl, rfl, rfl, fun _ h => h, fun _ _ h _ => h⟩

theorem trans {s s' s'' : Session} (h : Kept s s') (h' : Kept s' s'') : Kept s s'' where
  config := h'.config.trans h.config
  registry := h'.registry.trans h.registry
  templates := h'.templates.trans h.templates
  mounted id hid := h'.mounted id (h.mounted id hid)
  elements n x hx hfree := h'.elements n x (h.elements n x hx hfree) hfree

theorem rerender {s : Session} (hs : s.Sound) (store : Store) {m : Mounted}
    (hm : Dict.get? s.mounted m.island.id = some m) : Kept s (s.rerender store m) := by
  obtain ⟨timers, hmounted, hdocument, -⟩ := rerender_eq s store m
  refine ⟨rfl, rfl, rfl, fun id hid => ?_, fun n x hx hfree => ?_⟩
  · rw [hmounted, Dict.get?_insert, if_neg, hid]
    rintro rfl
    rw [hm] at hid
    cases hid
  · rw [hdocument]
    refine Document.keeps_setInnerHtml _ _ _ n x hx (.inl ?_)
    rintro rfl
    refine hfree ?_
    have htaken := hs.taken _ m hm
    rw [Document.attr?_eq, hx] at htaken
    exact htaken

theorem refresh {s : Session} (hs : s.Sound) (template : String) (store : Store)
    (names : List String) : Kept s (s.refresh template store names).1 := by
  refine (hs.refresh_rec (P := fun s' => s'.Sound ∧ Kept s s') ⟨hs, .refl s⟩ template store names
    ?_).2
  rintro s' m ⟨hs', hkept⟩ hm ht
  exact ⟨hs'.rerender store hm (ht ▸ Option.some_ne_none _), hkept.trans (.rerender hs' store hm)⟩

theorem fire {s : Session} (hs : s.Sound) (island : String) {run : Trace → Outcome}
    (hrun : ByBatches run) : Kept s (s.fire island run).1 := by
  rcases fire_cases s island hrun with he | ⟨m, template, store, u, storage, pending, hm, ht,
    hstore, hreach, he⟩
  · rw [he]
    exact .refl s
  · have hheard : u.store.Heard := (hs.heard template store hstore).of_frame hreach.frame.symm
    have hrefresh := Kept.refresh (hs.store template hheard storage) template u.store
      (u.notices.map (·.name))
    rw [he]
    exact ⟨hrefresh.config, hrefresh.registry, hrefresh.templates, hrefresh.mounted,
      hrefresh.elements⟩

theorem dispatch {s : Session} (hs : s.Sound) (island : String) (kind : EventKind) (index : Nat) :
    Kept s (s.dispatch island kind index).1 := by
  unfold Session.dispatch
  split
  · exact .refl s
  · split
    · exact .refl s
    · exact .fire hs island (run_byBatches _ _)

theorem fireMounts {s : Session} (hs : s.Sound) (island : String) (places : List Nat) :
    Kept s (s.fireMounts island places) := by
  unfold Session.fireMounts
  induction places generalizing s with
  | nil => exact .refl s
  | cons i places ih =>
    exact (Kept.dispatch hs island .mount i).trans (ih (sound_stable.dispatch hs island .mount i))

end Kept

/-! ## One place after the other -/

/-- An island that a session can bring to life: its component is built in, and its template
known. -/
structure Ready (t : Template) (i : Island) : Prop where
  template : i.templateId = t.id
  component : ∀ resident, ∃ c, mountBuiltIn i resident = .ok c

/-- Places that are still to come wait as they were, for a session that has all it needs. -/
structure Awaits (c : Config) (t : Template) (todo : List (NodeId × Placeholder)) (s : Session) :
    Prop extends Sound s where
  config : s.config = c
  registry : s.registry = []
  loaded : ∃ scope, Dict.get? s.templates t.id = some ⟨t, scope⟩
  places : ∀ x ∈ todo, ∃ kids, s.document.HasElement x.1 (placeAttributes x.2) kids
  unmounted : ∀ x ∈ todo, Dict.get? s.mounted x.2.id = none

theorem get?_stateAttr (p : Placeholder) :
    Dict.get? (placeAttributes p) Hydration.stateAttr = none := by
  refine Dict.get?_eq_none_iff.2 ?_
  simp [placeAttributes, Dict.keys, Page.islandAttr, Page.componentAttr, Hydration.stateAttr]

namespace Awaits

variable {c : Config} {t : Template} {todo : List (NodeId × Placeholder)} {x : NodeId × Placeholder}
variable {s s' : Session}

theorem of_kept (h : Awaits c t todo s) (hs : s'.Sound) (hkept : Kept s s') :
    Awaits c t todo s' where
  toSound := hs
  config := hkept.config.trans h.config
  registry := hkept.registry.trans h.registry
  loaded := hkept.templates ▸ h.loaded
  places x hx := by
    obtain ⟨kids, tag, hcore⟩ := h.places x hx
    refine ⟨kids, tag, hkept.elements _ _ hcore ?_⟩
    show Dict.get? (placeAttributes x.2) Hydration.stateAttr ≠ _
    rw [get?_stateAttr]
    exact Option.some_ne_none _ |>.symm
  unmounted x hx := hkept.mounted _ (h.unmounted x hx)

/-- Different islands have different places. -/
theorem node_ne (h : Awaits c t (x :: todo) s) (hn : ((x :: todo).map (·.2.id)).Nodup) :
    ∀ y ∈ todo, y.1 ≠ x.1 ∧ y.2.id ≠ x.2.id := by
  intro y hy
  have hid : y.2.id ≠ x.2.id := fun he =>
    (List.nodup_cons.1 hn).1 (List.mem_map.2 ⟨y, hy, he⟩)
  refine ⟨fun he => hid ?_, hid⟩
  obtain ⟨_, hplace⟩ := h.places x List.mem_cons_self
  obtain ⟨_, hplace'⟩ := h.places y (List.mem_cons_of_mem _ hy)
  have hattr := hplace.attr? Page.islandAttr
  rw [← he, hplace'.attr?] at hattr
  exact Option.some.inj hattr

/-- The store of the template is there, or it can be made. -/
theorem exists_ensureStore {src : String} (hcompile : (compile c src).template? = some t)
    (h : Awaits c t todo s) (resident : Resident) :
    ∃ r, s.ensureStore t.id resident = .ok r := by
  obtain ⟨scope, hloaded⟩ := h.loaded
  obtain ⟨store, hstore⟩ := exists_newStore hcompile h.config scope resident
  unfold ensureStore
  split
  · exact ⟨_, rfl⟩
  · rw [hloaded]
    dsimp only
    rw [hstore]
    exact ⟨_, rfl⟩

theorem ensureStore (h : Awaits c t todo s) {template : String} {resident : Resident}
    {store : Store} (he : s.ensureStore template resident = .ok (s', store)) :
    Awaits c t todo s' ∧ s'.document = s.document := by
  have hsound := h.toSound.ensure he
  rcases ensureStore_eq_ok he with ⟨rfl, -⟩ | ⟨-, t', hnew, rfl⟩
  · exact ⟨h, rfl⟩
  · exact ⟨⟨hsound, h.config, h.registry, h.loaded, h.places, h.unmounted⟩, rfl⟩

/-- An island that is ready has something to show first. -/
theorem exists_opening {src : String} (hcompile : (compile c src).template? = some t)
    (h : Awaits c t todo s) (resident : Resident) {i : Island} (hi : Ready t i)
    (component : MountedComponent) :
    ∃ s' o, s.opening resident i component = .ok (s', o) ∧ Awaits c t todo s' ∧
      s'.document = s.document := by
  unfold opening
  split
  · exact ⟨_, _, rfl, h, rfl⟩
  · obtain ⟨⟨s', store⟩, hensure⟩ := h.exists_ensureStore hcompile resident
    obtain ⟨hs', hdocument⟩ := h.ensureStore hensure
    rw [hi.template, hensure]
    exact ⟨_, _, rfl, hs', hdocument⟩

/-- The first place is taken and does not wait any more. -/
theorem settle (h : Awaits c t todo s) {p : Pass} {i : Island} {placeholder : NodeId}
    {component : MountedComponent} {o : Opening} (hs : (s.settle p i placeholder component o).Sound)
    (hapart : ∀ y ∈ todo, y.1 ≠ placeholder ∧ y.2.id ≠ i.id) :
    Awaits c t todo (s.settle p i placeholder component o) := by
  obtain ⟨timers, hmounted, hdocument, -, hconfig⟩ := settle_eq s p i placeholder component o
  refine ⟨hs, hconfig.trans h.config, h.registry, h.loaded, fun y hy => ?_, fun y hy => ?_⟩
  · obtain ⟨kids, tag, hcore⟩ := h.places y hy
    refine ⟨kids, tag, ?_⟩
    rw [hdocument]
    exact ((Document.keeps_setInnerHtml _ _ _).trans (Document.keeps_setAttr _ _ _ _)).trans
      (Document.keeps_setAttr _ _ _ _) _ _ hcore (.inl (hapart y hy).1)
  · rw [hmounted, Dict.get?_insert, if_neg (hapart y hy).2.symm]
    exact h.unmounted y hy

/-- A placeholder that waits for none of the other islands is marked. -/
theorem take (h : Awaits c t (x :: todo) s) (hn : ((x :: todo).map (·.2.id)).Nodup) :
    Awaits c t todo
      { s with document := s.document.setAttr x.1 Hydration.stateAttr State.hydrating.name } := by
  obtain ⟨kids, hplace⟩ := h.places x List.mem_cons_self
  have hid : s.document.attr? x.1 Page.islandAttr = some x.2.id := hplace.attr? _
  have hfree : (State.ofAttr (s.document.attr? x.1 Hydration.stateAttr)).isFree = true := by
    rw [hplace.attr?, get?_stateAttr]
    rfl
  refine ⟨sound_stable.take h.toSound hid hfree, h.config, h.registry, h.loaded, fun y hy => ?_,
    fun y hy => h.unmounted y (List.mem_cons_of_mem _ hy)⟩
  obtain ⟨kids, tag, hcore⟩ := h.places y (List.mem_cons_of_mem _ hy)
  exact ⟨kids, tag, Document.keeps_setAttr _ _ _ _ _ _ hcore (.inl (h.node_ne hn y hy).1)⟩

section

variable {src : String} (hcompile : (compile c src).template? = some t)
include hcompile

theorem mount (h : Awaits c t todo s) (p : Pass) {i : Island} (hi : Ready t i)
    {placeholder : NodeId}
    (htaken : s.document.attr? placeholder Hydration.stateAttr = some State.hydrating.name)
    (hnew : Dict.get? s.mounted i.id = none)
    (hapart : ∀ y ∈ todo, y.1 ≠ placeholder ∧ y.2.id ≠ i.id) :
    ∃ s', s.mount p i placeholder = (s', .ok ()) ∧ Awaits c t todo s' := by
  obtain ⟨component, hcomponent⟩ := hi.component p.resident.toValue
  obtain ⟨s', o, hopening, hs', hdocument⟩ := h.exists_opening hcompile p.resident hi component
  have hmissing : Dict.contains s.mounted i.id = false := by
    rw [Dict.contains, hnew]
    rfl
  have hregistry : s.registry.mount i p.resident.toValue = .ok component := by
    rw [h.registry, ← hcomponent]
    rfl
  have hsettled : Awaits c t todo (s'.settle p i placeholder component o) :=
    hs'.settle (hs'.toSound.settle _ _ (hdocument ▸ htaken) (opening_eq_ok hopening).1) hapart
  refine ⟨(s'.settle p i placeholder component o).fireMounts i.id (handlersOf .mount o.handlers),
    ?_, ?_⟩
  · unfold Session.mount
    rw [hmissing, hregistry]
    dsimp only
    rw [if_neg Bool.false_ne_true, hopening]
  · exact hsettled.of_kept (sound_stable.fireMounts hsettled.toSound _ _)
      (.fireMounts hsettled.toSound _ _)

/-- A place that waits is taken by its island. -/
theorem hydrateOne (h : Awaits c t (x :: todo) s) (hn : ((x :: todo).map (·.2.id)).Nodup) (p : Pass)
    {i : Island} (hi : Ready t i) (hid : i.id = x.2.id)
    (hp : Dict.get? p.islands x.2.id = some i) (r : HydrationResult) :
    ∃ s', Session.hydrateOne p s r x.1 = (s', { r with hydrated := r.hydrated + 1 }) ∧
      Awaits c t todo s' := by
  obtain ⟨kids, hplace⟩ := h.places x List.mem_cons_self
  have hattr : s.document.attr? x.1 Page.islandAttr = some x.2.id := hplace.attr? _
  have hfree : (State.ofAttr (s.document.attr? x.1 Hydration.stateAttr)).isFree = true := by
    rw [hplace.attr?, get?_stateAttr]
    rfl
  have htaken : (s.document.setAttr x.1 Hydration.stateAttr State.hydrating.name).attr? x.1
      Hydration.stateAttr = some State.hydrating.name := by
    rw [hplace.attr?_setAttr, if_pos rfl]
  obtain ⟨s', hmount, hs'⟩ := (h.take hn).mount hcompile p hi htaken
    (hid ▸ h.unmounted x List.mem_cons_self) fun y hy => hid ▸ h.node_ne hn y hy
  refine ⟨s'.record i .hydrated, ?_, ?_⟩
  · unfold Session.hydrateOne
    rw [hattr]
    dsimp only
    rw [hp]
    dsimp only
    rw [if_pos hfree, hmount]
  · exact ⟨sound_stable.record i .hydrated hs'.toSound, hs'.config, hs'.registry, hs'.loaded,
      hs'.places, hs'.unmounted⟩

/-- All places that wait are taken, and nothing goes wrong. -/
theorem hydrateAll (p : Pass) :
    ∀ (todo : List (NodeId × Placeholder)) (s : Session) (r : HydrationResult),
      Awaits c t todo s → (todo.map (·.2.id)).Nodup →
      (∀ x ∈ todo, ∃ i, Ready t i ∧ i.id = x.2.id ∧ Dict.get? p.islands x.2.id = some i) →
      ((todo.map (·.1)).foldl (fun sr n => Session.hydrateOne p sr.1 sr.2 n) (s, r)).2 =
        { r with hydrated := r.hydrated + todo.length } := by
  intro todo
  induction todo with
  | nil => exact fun s r _ _ _ => rfl
  | cons x todo ih =>
    intro s r h hn hall
    obtain ⟨i, hi, hid, hp⟩ := hall x List.mem_cons_self
    obtain ⟨s', hone, hs'⟩ := h.hydrateOne hcompile hn p hi hid hp r
    rw [List.map_cons, List.foldl_cons, hone,
      ih s' _ hs' (List.nodup_cons.1 hn).2 fun y hy => hall y (List.mem_cons_of_mem _ hy),
      List.length_cons, Nat.add_assoc, Nat.add_comm 1]

end

end Awaits

/-! ## Compiled templates -/

section

variable {c : Config} {src : String} {t : Template}

theorem neutral_of_compile (h : (compile c src).template? = some t) :
    ∀ n ∈ t.root.walk, Page.Neutral n := by
  intro n hn name htag hm
  obtain ⟨a, ha, hname⟩ := List.mem_map.1 hm
  rw [(Compilation.eq_of_template? h).2] at hn
  have hsafe := (Compile.safe_of_compile c src n hn name htag).2 a ha
  unfold unsafeReason? at hsafe
  rw [hname, if_neg (by decide), if_pos (by decide)] at hsafe
  cases hsafe

theorem ready_of_compile (h : (compile c src).template? = some t) : ∀ i ∈ t.islands, Ready t i := by
  intro i hi
  obtain ⟨s, hid, n, hhandles, hinteractive, used, rfl⟩ := Compile.from_of_compile h i hi
  exact ⟨hid, Hydration.exists_mountBuiltIn s used hinteractive hhandles⟩

end

/-- A fresh session for a page that is put into a new container. -/
def opened (c : Config) (storage : Option Storage) (params : Dict String) (d : Document)
    (containerId : String) (page : Page) : Session :=
  let (document, container) := d.addContainer containerId
  { document := document.mount container page.root, config := c, storage, params }

/-- Every island that a page shows is hydrated, and nothing goes wrong: neither what authors write
nor what is stored, given in the address or known of the resident stands in the way. A text in
memory is shorter than `2 ^ 63` bytes. -/
theorem hydrate_opened {c : Config} {src : String} {t : Template}
    (hsize : src.utf8ByteSize < 2 ^ 63)
    (h : (compile c src).template? = some t) (r : Page.Renderer) (shown : Scope) {d : Document}
    {containerId : String} (hnew : d.byId? containerId = none) (storage : Option Storage)
    (params : Dict String) (scope : String) (resident : Resident) (time : String) :
    (((opened c storage params d containerId (r.render shown t.root)).loadTemplate t scope).hydrate
      containerId resident t.islands time).2 =
      .ok { hydrated := (r.render shown t.root).islands.length } := by
  have hdistinct := Compile.distinct_of_compile hsize h
  obtain ⟨islands, hsub, hids, hplaces, -⟩ := Page.exists_shown hsize h r shown
  obtain ⟨hcontainer, found, hwalk, hfound, helements⟩ := Document.found_mount hnew
    (Page.clear_render r shown (neutral_of_compile h))
    (rfl : (opened c storage params d containerId (r.render shown t.root)).document = _)
  -- the places that the walk finds are those of islands of the template
  have hmap : found.map (·.2.id) = islands.map (·.id) := by
    have hall := congrArg (List.map Placeholder.id) (hfound.trans hplaces)
    rwa [List.map_map, List.map_map] at hall
  have hnodup : (found.map (·.2.id)).Nodup := hmap ▸ hdistinct.sublist (hsub.map _)
  have hfresh : ((opened c storage params d containerId (r.render shown t.root)).loadTemplate t
      scope).Unhydrated := ⟨rfl, rfl⟩
  have hawaits : Awaits c t found
      ((opened c storage params d containerId (r.render shown t.root)).loadTemplate t scope) :=
    ⟨hfresh.inStep.toSound, rfl, rfl, ⟨scope, Dict.get?_insert_self _ _ _⟩, helements,
      fun _ _ => rfl⟩
  have hknown : Dict.ofList (t.islands.map fun i => (i.id, i)) =
      t.islands.map fun i => (i.id, i) := by
    refine Dict.ofList_of_nodup ?_
    rwa [Dict.keys, List.map_map]
  have hready : ∀ x ∈ found, ∃ i, Ready t i ∧ i.id = x.2.id ∧
      Dict.get? (Dict.ofList (t.islands.map fun i => (i.id, i))) x.2.id = some i := by
    intro x hx
    obtain ⟨i, hi, hid⟩ := List.mem_map.1
      (hmap ▸ List.mem_map_of_mem hx : x.2.id ∈ islands.map (·.id))
    have hi := hsub.subset hi
    refine ⟨i, ready_of_compile h i hi, hid, ?_⟩
    rw [hknown, ← hid]
    refine Dict.get?_of_mem ?_ (List.mem_map_of_mem hi)
    rw [Dict.keys, List.map_map]
    exact hdistinct
  have hpass := Awaits.hydrateAll h
    ⟨(d.addContainer containerId).2, resident, Dict.ofList (t.islands.map fun i => (i.id, i)), time⟩
    found _ {} hawaits hnodup hready
  unfold hydrate
  rw [show ((opened c storage params d containerId (r.render shown t.root)).loadTemplate t
    scope).document.byId? containerId = _ from hcontainer]
  dsimp only
  rw [show ((opened c storage params d containerId (r.render shown t.root)).loadTemplate t
    scope).document.placeholders _ = _ from hwalk, hpass]
  have hlength := congrArg List.length hmap
  rw [List.length_map, List.length_map] at hlength
  rw [hids, List.length_map, hlength, Nat.zero_add]

/-- The one island that a stranger is shown at the door is hydrated, in a document that is empty but
for the container. -/
theorem hydrate_opened_door :
    ∃ t, (compile {} Page.doorMarkup).template? = some t ∧ ({} : Document).byId? "root" = none ∧
      (((opened {} none [] {} "root"
          ((Page.Renderer.ofConfig {}).render Page.nobody t.root)).loadTemplate
        t "profile:1").hydrate "root" {} t.islands "12:00").2 = .ok { hydrated := 1 } := by
  have ht : ((compile {} Page.doorMarkup).template?.map fun t =>
      decide (((Page.Renderer.ofConfig {}).render Page.nobody t.root).islands.length = 1)) =
        some true := by
    decide +kernel
  obtain ⟨t, htemplate, ht⟩ := Option.map_eq_some_iff.1 ht
  have hnew : ({} : Document).byId? "root" = none := Array.findIdx?_empty
  refine ⟨t, htemplate, hnew, ?_⟩
  rw [← of_decide_eq_true ht]
  exact hydrate_opened (by decide +kernel) htemplate _ _ hnew _ _ _ _ _

end Session

end Archipelago
