import Archipelago.Proofs.Session.Calls

/-!
# Sound sessions

What every session keeps to, whatever is called: islands are mounted under their own names, each
in a placeholder of its own, and a template that drives an island has a store that tells of every
change.
-/

namespace Archipelago

open Hydration (MountedComponent State)

namespace Dict

universe u

variable {α : Type u}

theorem nodup_keys_erase {d : Dict α} (h : (keys d).Nodup) (name : String) :
    (keys (erase d name)).Nodup := h.sublist (List.filter_sublist.map _)

theorem get?_erase_eq_some {β : Type} {d : Dict β} {name key : String} {x : β}
    (h : get? (erase d name) key = some x) : key ≠ name ∧ get? d key = some x := by
  rw [get?_erase] at h
  split at h
  · contradiction
  · rename_i hne
    exact ⟨Ne.symm hne, h⟩

theorem get?_filter_key (d : Dict α) (p : String → Bool) (name : String) :
    get? (d.filter fun e => p e.1) name = if p name then get? d name else none := by
  induction d with
  | nil => simp
  | cons e d ih =>
    obtain ⟨k, x⟩ := e
    by_cases hk : k = name
    · subst hk
      by_cases hp : p k = true
      · simp [hp, get?]
      · simpa [hp] using ih
    · by_cases hp : p k = true
      · simpa [hp, get?, hk] using ih
      · simpa [hp, get?, hk] using ih

theorem filter_insert (p : String → Bool) (d : Dict α) (name : String) (x : α) :
    (insert d name x).filter (fun e => p e.1) =
      if p name then insert (d.filter fun e => p e.1) name x else d.filter fun e => p e.1 := by
  induction d with
  | nil => cases h : p name <;> simp [insert, h]
  | cons e d ih =>
    obtain ⟨k, v⟩ := e
    by_cases hk : k = name
    · subst hk
      cases h : p k <;> simp [insert, h]
    · have hcons : ∀ d : Dict α, insert ((k, v) :: d) name x = (k, v) :: insert d name x :=
        fun d => by rw [insert, if_neg hk]
      rw [hcons, List.filter_cons, List.filter_cons, ih]
      cases p k with
      | false => rfl
      | true =>
        cases p name with
        | false => rfl
        | true => exact (hcons _).symm

/-- It makes no difference whether entries are left out before or behind. -/
theorem filter_ofList (p : String → Bool) (entries : List (String × α)) :
    (ofList entries).filter (fun e => p e.1) = ofList (entries.filter fun e => p e.1) := by
  have hmerge : ∀ d : Dict α, (merge d entries).filter (fun e => p e.1) =
      merge (d.filter fun e => p e.1) (entries.filter fun e => p e.1) := by
    induction entries with
    | nil => exact fun _ => rfl
    | cons e entries ih =>
      intro d
      refine (ih (insert d e.1 e.2)).trans ?_
      rw [filter_insert, List.filter_cons]
      split
      · rfl
      · rfl
  exact hmerge []

end Dict

/-! ## Stores of templates -/

namespace Session

/-- To subscribe changes no variable, and each name has a subscription then. -/
theorem subscribeAll_eq_ok {s s' : Store} {names : List String}
    (h : subscribeAll s names = .ok s') :
    s'.vars = s.vars ∧ (∀ sub ∈ s.subscriptions, sub ∈ s'.subscriptions) ∧
      ∀ name ∈ names, ∃ id, (id, name) ∈ s'.subscriptions := by
  induction names generalizing s with
  | nil =>
    obtain rfl : s = s' := Except.ok.inj h
    exact ⟨rfl, fun _ h => h, fun name hn => by simp at hn⟩
  | cons name names ih =>
    obtain ⟨⟨t, id⟩, ht, hrest⟩ := bind_eq_ok.1 h
    unfold Store.subscribe at ht
    split at ht
    · obtain ⟨rfl, rfl⟩ := Prod.mk.inj (Except.ok.inj ht)
      obtain ⟨hvars, hold, hnew⟩ := ih hrest
      refine ⟨hvars, fun sub hsub => hold sub (List.mem_append_left _ hsub), ?_⟩
      intro other ho
      rcases List.mem_cons.1 ho with rfl | ho
      · exact ⟨_, hold _ (List.mem_append_right _ (List.mem_singleton.2 rfl))⟩
      · exact hnew other ho
    · contradiction

/-- A new store tells of every change. -/
theorem heard_newStore {s : Session} {t : LoadedTemplate} {resident : Resident} {store : Store}
    (h : s.newStore t resident = .ok store) : store.Heard := by
  obtain ⟨kept, -, hsub⟩ := bind_eq_ok.1 h
  obtain ⟨hvars, -, hall⟩ := subscribeAll_eq_ok hsub
  intro name hn
  refine hall name ?_
  rwa [Store.names, hvars] at hn

/-! ## Islands in their places -/

/-- How the islands of a session stand to its document and to its stores. -/
structure Sound (s : Session) : Prop where
  nodup : (Dict.keys s.mounted).Nodup
  named : ∀ id m, Dict.get? s.mounted id = some m → m.island.id = id
  /-- The placeholder of an island tells that it is taken. -/
  taken : ∀ id m, Dict.get? s.mounted id = some m →
    s.document.attr? m.placeholder Hydration.stateAttr = some State.hydrated.name
  apart : ∀ id id' m m', Dict.get? s.mounted id = some m → Dict.get? s.mounted id' = some m' →
    m.placeholder = m'.placeholder → id = id'
  /-- An island without a template has no events. -/
  idle : ∀ id m, Dict.get? s.mounted id = some m → m.template = none → m.handlers = []
  driven : ∀ id m t, Dict.get? s.mounted id = some m → m.template = some t →
    t = m.island.templateId ∧ m.reads = subtreeReads m.island.node ∧
      ∃ store, Dict.get? s.stores t = some store
  heard : ∀ t store, Dict.get? s.stores t = some store → store.Heard

/-- Only the timers of an island change when they are brought in step. -/
theorem syncTimers_mounted (least : Nat) (scheduler : Scheduler (String × Job)) (m : Mounted) :
    ∃ scheduler' timers, syncTimers least scheduler m = (scheduler', { m with timers }) := by
  unfold syncTimers
  dsimp only
  split
  · exact ⟨scheduler, m.timers, rfl⟩
  · exact ⟨_, _, rfl⟩

/-- A rerendering touches its own island and the place of it. -/
theorem rerender_eq (s : Session) (store : Store) (m : Mounted) :
    ∃ timers,
      (s.rerender store m).mounted = Dict.insert s.mounted m.island.id
        { m with
          handlers := (s.renderer.renderIsland store.toScope m.island).handlers
          timers } ∧
      (s.rerender store m).document = s.document.setInnerHtml m.placeholder
        (Page.Node.htmlAll (s.renderer.renderIsland store.toScope m.island).children) ∧
      (s.rerender store m).stores = s.stores ∧ (s.rerender store m).config = s.config := by
  obtain ⟨scheduler, timers, ht⟩ := syncTimers_mounted s.config.hydration.minIntervalMs s.scheduler
    { m with handlers := (s.renderer.renderIsland store.toScope m.island).handlers }
  refine ⟨timers, ?_⟩
  simp only [rerender, ht, and_self]

/-- What an island that settles changes. -/
theorem settle_eq (s : Session) (p : Pass) (island : Island) (placeholder : NodeId)
    (c : MountedComponent) (o : Opening) :
    ∃ timers,
      (s.settle p island placeholder c o).mounted = Dict.insert s.mounted island.id
        { island, placeholder, container := p.container, handlers := o.handlers, reads := o.reads
          token := s.nextToken, timers, component := c, template := o.template } ∧
      (s.settle p island placeholder c o).document =
        ((s.document.setInnerHtml placeholder o.html).setAttr placeholder Hydration.stateAttr
          State.hydrated.name).setAttr placeholder Hydration.timeAttr p.time ∧
      (s.settle p island placeholder c o).stores = s.stores ∧
      (s.settle p island placeholder c o).config = s.config := by
  obtain ⟨scheduler, timers, ht⟩ := syncTimers_mounted s.config.hydration.minIntervalMs s.scheduler
    { island, placeholder, container := p.container, handlers := o.handlers, reads := o.reads
      token := s.nextToken, timers := [], component := c, template := o.template }
  refine ⟨timers, ?_⟩
  simp only [settle, ht, and_self]

namespace Sound

variable {s : Session} (h : s.Sound)
include h

/-- A node that no island has taken is the place of none. -/
theorem placeholder_ne {id : String} {m : Mounted} (hm : Dict.get? s.mounted id = some m)
    {n : NodeId} (hn : s.document.attr? n Hydration.stateAttr ≠ some State.hydrated.name) :
    m.placeholder ≠ n := by
  rintro rfl
  exact hn (h.taken id m hm)

theorem get?_of_mem {id : String} {m : Mounted} (hm : (id, m) ∈ s.mounted) :
    Dict.get? s.mounted m.island.id = some m := by
  have hget := Dict.get?_of_mem h.nodup hm
  rwa [h.named id m hget]

theorem ids_eq : s.mounted.map (·.2.island.id) = Dict.keys s.mounted :=
  List.map_congr_left fun e he => h.named e.1 e.2 (Dict.get?_of_mem h.nodup he)

/-- Work on a node that no island has taken. -/
theorem document {d : Document} {n : NodeId} (hk : Document.Keeps n s.document d)
    (hn : s.document.attr? n Hydration.stateAttr ≠ some State.hydrated.name) :
    Sound { s with document := d } where
  nodup := h.nodup
  named := h.named
  taken id m hm := hk.attr? (h.placeholder_ne hm hn) (h.taken id m hm)
  apart := h.apart
  idle := h.idle
  driven := h.driven
  heard := h.heard

/-- Another store for a template. -/
theorem store (template : String) {store : Store} (hheard : store.Heard)
    (storage : Option Storage) :
    Sound { s with stores := Dict.insert s.stores template store, storage } where
  nodup := h.nodup
  named := h.named
  taken := h.taken
  apart := h.apart
  idle := h.idle
  driven id m t hm ht := by
    obtain ⟨htemplate, hreads, old, hold⟩ := h.driven id m t hm ht
    refine ⟨htemplate, hreads, ?_⟩
    rw [Dict.get?_insert]
    split
    · exact ⟨store, rfl⟩
    · exact ⟨old, hold⟩
  heard t st ht := by
    rw [Dict.get?_insert] at ht
    split at ht
    · exact Option.some.inj ht ▸ hheard
    · exact h.heard t st ht

/-! ## Refreshing -/

/-- To render an island anew leaves a session sound. Each island is as it was before, but for the
handlers and the timers of that one. -/
theorem rerender (store : Store) {m : Mounted} (hm : Dict.get? s.mounted m.island.id = some m)
    (ht : m.template ≠ none) : (s.rerender store m).Sound := by
  obtain ⟨timers, hmounted, hdocument, hstores, -⟩ := rerender_eq s store m
  have htaken := h.taken _ m hm
  obtain ⟨_, _, helement⟩ := Document.hasElement_of_attr? htaken
  have hattr : ∀ id x, Dict.get? s.mounted id = some x →
      (s.rerender store m).document.attr? x.placeholder Hydration.stateAttr =
        some State.hydrated.name := by
    intro id x hx
    rw [hdocument]
    by_cases he : x.placeholder = m.placeholder
    · rw [he, (helement.setInnerHtml _).2, htaken]
    · exact (Document.keeps_setInnerHtml _ _ _).attr? he (h.taken id x hx)
  have hold : ∀ id x, Dict.get? (s.rerender store m).mounted id = some x →
      ∃ y, Dict.get? s.mounted id = some y ∧ x.island = y.island ∧ x.placeholder = y.placeholder ∧
        x.template = y.template ∧ x.reads = y.reads ∧
        (x.template = none → x.handlers = y.handlers) := by
    intro id x hx
    rw [hmounted, Dict.get?_insert] at hx
    split at hx
    · rename_i he
      obtain rfl := Option.some.inj hx
      exact ⟨m, he ▸ hm, rfl, rfl, rfl, rfl, fun hnone => absurd hnone ht⟩
    · exact ⟨x, hx, rfl, rfl, rfl, rfl, fun _ => rfl⟩
  refine ⟨?_, ?_, ?_, ?_, ?_, ?_, ?_⟩
  · rw [hmounted]
    exact Dict.nodup_keys_insert h.nodup
  · intro id x hx
    obtain ⟨y, hy, hi, -⟩ := hold id x hx
    rw [hi, h.named id y hy]
  · intro id x hx
    obtain ⟨y, hy, -, hp, -⟩ := hold id x hx
    rw [hp, hattr id y hy]
  · intro id id' x x' hx hx' he
    obtain ⟨y, hy, -, hp, -⟩ := hold id x hx
    obtain ⟨y', hy', -, hp', -⟩ := hold id' x' hx'
    exact h.apart id id' y y' hy hy' (by rw [← hp, ← hp', he])
  · intro id x hx hnone
    obtain ⟨y, hy, -, -, hy', -, hh⟩ := hold id x hx
    rw [hh hnone, h.idle id y hy (hy' ▸ hnone)]
  · intro id x t hx hxt
    obtain ⟨y, hy, hi, -, hyt, hr, -⟩ := hold id x hx
    rw [hi, hr, hstores]
    exact h.driven id y t hy (hyt ▸ hxt)
  · rw [hstores]
    exact h.heard

end Sound

/-- Islands with different names are rendered anew, one after the other. -/
theorem foldl_rerender {Q : List Mounted → Session → Prop} {store : Store}
    (hQ : ∀ m ms s, Q (m :: ms) s → Dict.get? s.mounted m.island.id = some m →
      Q ms (s.rerender store m)) :
    (ms : List Mounted) → (ms.map (·.island.id)).Nodup → ∀ s : Session,
      (∀ m ∈ ms, Dict.get? s.mounted m.island.id = some m) → Q ms s →
        Q [] (ms.foldl (fun s m => s.rerender store m) s)
  | [], _, _, _, hs => hs
  | m :: ms, hn, s, hget, hs => by
    obtain ⟨hnew, hn⟩ := List.nodup_cons.1 hn
    refine foldl_rerender hQ ms hn _ (fun m' hm' => ?_) (hQ m ms s hs (hget m List.mem_cons_self))
    obtain ⟨timers, hmounted, -⟩ := rerender_eq s store m
    have hne : m.island.id ≠ m'.island.id := fun he =>
      hnew (List.mem_map.2 ⟨m', hm', he.symm⟩)
    rw [hmounted, Dict.get?_insert, if_neg hne]
    exact hget m' (List.mem_cons_of_mem _ hm')

/-- The islands of a template that show one of the names. -/
def stale (s : Session) (template : String) (names : List String) : List Mounted :=
  (s.mounted.map (·.2)).filter (·.shows template names)

/-- A refresh renders the islands that are stale, one after the other. -/
theorem refresh_eq (s : Session) (template : String) (store : Store) (names : List String) :
    s.refresh template store names =
      ((s.stale template names).foldl (fun s m => s.rerender store m) s,
        (s.stale template names).map (·.island.id)) := rfl

/-- An island that is stale is mounted, and its template drives it. -/
theorem mem_stale {s : Session} {template : String} {names : List String} {m : Mounted}
    (h : m ∈ s.stale template names) :
    (∃ id, (id, m) ∈ s.mounted) ∧ m.template = some template := by
  obtain ⟨hm, hshows⟩ := List.mem_filter.1 h
  obtain ⟨e, he, rfl⟩ := List.mem_map.1 hm
  exact ⟨⟨e.1, he⟩, (by simpa [Mounted.shows] using hshows : _ ∧ _).1⟩

namespace Sound

variable {s : Session} (h : s.Sound)
include h

theorem nodup_stale (template : String) (names : List String) :
    ((s.stale template names).map (·.island.id)).Nodup := by
  refine List.Nodup.sublist (List.filter_sublist.map _) ?_
  rw [List.map_map]
  exact h.ids_eq ▸ h.nodup

theorem get?_of_stale {template : String} {names : List String} {m : Mounted}
    (hm : m ∈ s.stale template names) : Dict.get? s.mounted m.island.id = some m := by
  obtain ⟨⟨id, hid⟩, -⟩ := mem_stale hm
  exact h.get?_of_mem hid

/-- What is kept by the rendering of each island of a template is kept by that of all of them. -/
theorem refresh_rec {P : Session → Prop} (hP : P s) (template : String) (store : Store)
    (names : List String) (hstep : ∀ s m, P s → Dict.get? s.mounted m.island.id = some m →
      m.template = some template → P (s.rerender store m)) :
    P (s.refresh template store names).1 := by
  rw [refresh_eq]
  refine (foldl_rerender (Q := fun ms s => P s ∧ ∀ m ∈ ms, m.template = some template) ?_ _
    (h.nodup_stale template names) s (fun m hm => h.get?_of_stale hm)
    ⟨hP, fun m hm => (mem_stale hm).2⟩).1
  rintro m ms s ⟨hs, ht⟩ hm
  exact ⟨hstep s m hs hm (ht m List.mem_cons_self),
    fun m' hm' => ht m' (List.mem_cons_of_mem _ hm')⟩

theorem refresh (template : String) (store : Store) (names : List String) :
    (s.refresh template store names).1.Sound :=
  h.refresh_rec h template store names fun _ _ hs hm ht =>
    hs.rerender store hm (ht ▸ Option.some_ne_none _)

end Sound

/-! ## Events -/

/-- An event leaves a session as it is, or else it batches on the store of a template, and the
islands of the template that show what has changed are rendered anew. -/
theorem fire_cases (s : Session) (island : String) {run : Trace → Outcome} (hrun : ByBatches run) :
    (s.fire island run).1 = s ∨
      ∃ m template store u storage pending, Dict.get? s.mounted island = some m ∧
        m.template = some template ∧ Dict.get? s.stores template = some store ∧
        Trace.Reaches { store } u ∧
        (s.fire island run).1 =
          (Session.refresh
            { s with stores := Dict.insert s.stores template u.store, storage } template u.store
            (u.notices.map (·.name))).1.suspend m pending := by
  unfold fire
  split
  · exact .inl rfl
  · rename_i m hm
    split
    · exact .inl rfl
    · rename_i template ht
      split
      · exact .inl rfl
      · rename_i store hstore
        have hreach := hrun { store }
        refine .inr ⟨m, template, store, lastTrace Prod.fst (run { store }),
          ((⟨store, s.storage⟩ : KeptStore).after (lastTrace Prod.fst (run { store }))).storage, ?_⟩
        cases hout : run { store } with
        | ok r =>
          obtain ⟨u, pending⟩ := r
          refine ⟨pending, hm, ht, hstore, hout ▸ hreach, ?_⟩
          rfl
        | error f =>
          refine ⟨[], hm, ht, hstore, hout ▸ hreach, ?_⟩
          rfl

namespace Sound

variable {s : Session} (h : s.Sound)
include h

theorem of_eq {t : Session} (hd : t.document = s.document) (hm : t.mounted = s.mounted)
    (hs : t.stores = s.stores) : t.Sound where
  nodup := hm ▸ h.nodup
  named := hm ▸ h.named
  taken := hd ▸ hm ▸ h.taken
  apart := hm ▸ h.apart
  idle := hm ▸ h.idle
  driven := hs ▸ hm ▸ h.driven
  heard := hs ▸ h.heard

/-- An event leaves a session sound. -/
theorem fire (island : String) {run : Trace → Outcome} (hrun : ByBatches run) :
    (s.fire island run).1.Sound := by
  rcases fire_cases s island hrun with he | ⟨m, template, store, u, storage, pending, hm, ht,
    hstore, hreach, he⟩
  · rwa [he]
  · rw [he]
    have hheard : u.store.Heard := (h.heard template store hstore).of_frame hreach.frame.symm
    exact ((h.store template hheard storage).refresh template u.store _).of_eq rfl rfl rfl

/-! ## Islands that come and go -/

/-- A store that is made leaves a session sound. -/
theorem ensure {s' : Session} {template : String} {resident : Resident} {store : Store}
    (he : s.ensureStore template resident = .ok (s', store)) : s'.Sound := by
  rcases ensureStore_eq_ok he with ⟨rfl, -⟩ | ⟨-, t, hnew, rfl⟩
  · exact h
  · exact h.store template (heard_newStore hnew) s.storage

/-- A session is sound once an island has settled in its placeholder. Its islands are the new one
and those before. -/
theorem settle (p : Pass) {island : Island} {placeholder : NodeId} (c : MountedComponent)
    {o : Opening}
    (htaken : s.document.attr? placeholder Hydration.stateAttr = some State.hydrating.name)
    (hopens : s.Opens island o) : (s.settle p island placeholder c o).Sound := by
  obtain ⟨timers, hmounted, hdocument, hstores, -⟩ := settle_eq s p island placeholder c o
  have hfree : s.document.attr? placeholder Hydration.stateAttr ≠ some State.hydrated.name := by
    rw [htaken]
    decide
  obtain ⟨_, _, helement⟩ := Document.hasElement_of_attr? htaken
  have hkeeps :
      Document.Keeps placeholder s.document (s.settle p island placeholder c o).document := by
    rw [hdocument]
    exact ((Document.keeps_setInnerHtml _ _ _).trans (Document.keeps_setAttr _ _ _ _)).trans
      (Document.keeps_setAttr _ _ _ _)
  have hattr : (s.settle p island placeholder c o).document.attr? placeholder
      Hydration.stateAttr = some State.hydrated.name := by
    obtain ⟨_, _, helement, -⟩ := (helement.setInnerHtml o.html).1
    obtain ⟨_, _, helement'⟩ := Document.hasElement_of_attr? (d := Document.setAttr _ _ _ _)
      ((helement.attr?_setAttr Hydration.stateAttr State.hydrated.name
        Hydration.stateAttr).trans (if_pos rfl))
    rw [hdocument, helement'.attr?_setAttr, if_neg (by decide), helement.attr?_setAttr, if_pos rfl]
  have hold : ∀ id x, Dict.get? (s.settle p island placeholder c o).mounted id = some x →
      (id = island.id ∧ x.island = island ∧ x.placeholder = placeholder ∧ x.handlers = o.handlers ∧
        x.reads = o.reads ∧ x.template = o.template) ∨
      Dict.get? s.mounted id = some x ∧ x.placeholder ≠ placeholder := by
    intro id x hx
    rw [hmounted, Dict.get?_insert] at hx
    split at hx
    · rename_i he
      obtain rfl := Option.some.inj hx
      exact .inl ⟨he.symm, rfl, rfl, rfl, rfl, rfl⟩
    · exact .inr ⟨hx, h.placeholder_ne hx hfree⟩
  refine ⟨?_, ?_, ?_, ?_, ?_, ?_, ?_⟩
  · rw [hmounted]
    exact Dict.nodup_keys_insert h.nodup
  · intro id x hx
    rcases hold id x hx with ⟨hid, hi, -⟩ | ⟨hx, -⟩
    · rw [hi, hid]
    · exact h.named id x hx
  · intro id x hx
    rcases hold id x hx with ⟨-, -, hp, -⟩ | ⟨hx, hne⟩
    · rw [hp, hattr]
    · exact hkeeps.attr? hne (h.taken id x hx)
  · intro id id' x x' hx hx' he
    rcases hold id x hx with ⟨hid, -, hp, -⟩ | ⟨hx, hne⟩
    · rcases hold id' x' hx' with ⟨hid', -⟩ | ⟨hx', hne'⟩
      · rw [hid, hid']
      · exact absurd (he.symm.trans hp) hne'
    · rcases hold id' x' hx' with ⟨-, -, hp', -⟩ | ⟨hx', hne'⟩
      · exact absurd (he.trans hp') hne
      · exact h.apart id id' x x' hx hx' he
  · intro id x hx hnone
    rcases hold id x hx with ⟨-, -, -, hh, -, ht⟩ | ⟨hx, -⟩
    · rcases hopens with ⟨html, rfl⟩ | ⟨store, -, rfl⟩
      · exact hh
      · cases ht.symm.trans hnone
    · exact h.idle id x hx hnone
  · intro id x t hx hxt
    rw [hstores]
    rcases hold id x hx with ⟨-, hi, -, -, hr, ht⟩ | ⟨hx, -⟩
    · rcases hopens with ⟨html, rfl⟩ | ⟨store, hstore, rfl⟩
      · cases ht.symm.trans hxt
      · obtain rfl : island.templateId = t := Option.some.inj (ht.symm.trans hxt)
        exact ⟨by rw [hi], by rw [hr, hi]; rfl, store, hstore⟩
    · exact h.driven id x t hx hxt
  · rw [hstores]
    exact h.heard

theorem fail {placeholder : NodeId} (e : HydrationError)
    (hn : s.document.attr? placeholder Hydration.stateAttr ≠ some State.hydrated.name) :
    (s.fail placeholder e).Sound := by
  unfold Session.fail
  dsimp only
  split
  · exact h.document (Document.keeps_setAttr _ _ _ _) hn
  · exact h.document ((Document.keeps_setAttr _ _ _ _).trans (Document.keeps_setInnerHtml _ _ _)) hn

/-- An island that is taken off leaves a session sound. -/
theorem unmountOne (r : CleanupReport) (id : String) : (Session.unmountOne s r id).1.Sound := by
  unfold Session.unmountOne
  split
  · exact h
  · rename_i m hm
    have hkeeps : Document.Keeps m.placeholder s.document
        ((s.document.removeAttr m.placeholder Hydration.stateAttr).removeAttr m.placeholder
          Hydration.timeAttr) :=
      (Document.keeps_removeAttr _ _ _).trans (Document.keeps_removeAttr _ _ _)
    refine ⟨Dict.nodup_keys_erase h.nodup id, ?_, ?_, ?_, ?_, ?_, h.heard⟩
    · exact fun id' x hx => h.named id' x (Dict.get?_erase_eq_some hx).2
    · intro id' x hx
      obtain ⟨hne, hx⟩ := Dict.get?_erase_eq_some hx
      exact hkeeps.attr? (fun he => hne (h.apart id' id x m hx hm he)) (h.taken id' x hx)
    · exact fun id' id'' x x' hx hx' =>
        h.apart id' id'' x x' (Dict.get?_erase_eq_some hx).2 (Dict.get?_erase_eq_some hx').2
    · exact fun id' x hx => h.idle id' x (Dict.get?_erase_eq_some hx).2
    · exact fun id' x t hx => h.driven id' x t (Dict.get?_erase_eq_some hx).2

theorem dropStores : s.dropStores.Sound where
  nodup := h.nodup
  named := h.named
  taken := h.taken
  apart := h.apart
  idle := h.idle
  driven id m t hm ht := by
    obtain ⟨htemplate, hreads, store, hstore⟩ := h.driven id m t hm ht
    refine ⟨htemplate, hreads, store, ?_⟩
    have hused : (s.mounted.any fun e => decide (e.2.template = some t)) = true :=
      List.any_eq_true.2 ⟨_, Dict.mem_of_get? hm, by simpa using ht⟩
    exact (Dict.get?_filter_key s.stores
      (fun name => s.mounted.any fun e => decide (e.2.template = some name)) t).trans
        (by rw [if_pos hused, hstore])
  heard t store ht := by
    refine h.heard t store ?_
    have := (Dict.get?_filter_key s.stores
      (fun name => s.mounted.any fun e => decide (e.2.template = some name)) t).symm.trans ht
    split at this
    · exact this
    · contradiction

end Sound

theorem ne_hydrated_of_isFree {attr : Option String} (h : (State.ofAttr attr).isFree = true) :
    attr ≠ some State.hydrated.name := by
  rintro rfl
  rw [State.ofAttr_name] at h
  contradiction

/-- Every step keeps a session sound. -/
theorem sound_stable : Stable Sound where
  load t scope hs := hs.of_eq rfl rfl rfl
  pop time hs := hs.of_eq rfl rfl rfl
  advanceTo time hs := hs.of_eq rfl rfl rfl
  fire island hs hrun := hs.fire island hrun
  take hs _ hfree := hs.document (Document.keeps_setAttr _ _ _ _) (ne_hydrated_of_isFree hfree)
  ensure hs he := hs.ensure he
  settle hs htaken _ hopens := hs.settle _ _ htaken hopens
  fail e hs htaken := hs.fail e (by rw [htaken]; decide)
  record island outcome hs := hs.of_eq rfl rfl rfl
  unmountOne r id hs := hs.unmountOne r id
  dropStores hs := hs.dropStores

end Session

end Archipelago
