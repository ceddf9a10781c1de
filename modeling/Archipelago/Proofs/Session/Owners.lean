import Archipelago.Proofs.Session.Advance
import Archipelago.Proofs.Session.Unmoved

/-!
# Owners of timers

No timer outlives its island. Work on the timers of one island leaves those of all others alone, and
a new timer has the token of the island that it is for. So the owner of a live timer is mounted, and
with no islands there is nothing that time could bring up.
-/

namespace Archipelago

open Hydration (MountedComponent State)

/-- The live timers of one island, in the order in which they were scheduled. -/
def Scheduler.jobsOf (s : Scheduler (String × Session.Job)) (island : String) :
    List (Timer (String × Session.Job)) := s.live.filter (·.payload.1 = island)

theorem Scheduler.ofIsland_eq (s : Scheduler (String × Session.Job)) (island : String) :
    s.ofIsland island = (s.jobsOf island).filterMap Timer.recurring? := by
  refine (filterMap_filter_recurring (fun t e he => ?_) s.live).symm
  obtain ⟨period, -, rfl⟩ := Option.map_eq_some_iff.1 he
  rfl

namespace Session

/-! ## The timers of one island -/

/-- Between two schedulers there has been work on the timers of one island only. -/
structure Tended (island : String) (token : Token) (sch sch' : Scheduler (String × Job)) :
    Prop where
  numbered : sch.Numbered → sch'.Numbered
  mem : ∀ t ∈ sch'.live, t ∈ sch.live ∨ t.payload.1 = island ∧ t.token = token
  others : ∀ other, other ≠ island → sch'.jobsOf other = sch.jobsOf other

namespace Tended

variable {island : String} {token : Token} {sch sch' sch'' : Scheduler (String × Job)}

theorem refl (island : String) (token : Token) (sch : Scheduler (String × Job)) :
    Tended island token sch sch := ⟨id, fun _ ht => .inl ht, fun _ _ => rfl⟩

theorem trans (h : Tended island token sch sch') (h' : Tended island token sch' sch'') :
    Tended island token sch sch'' where
  numbered hn := h'.numbered (h.numbered hn)
  mem t ht := (h'.mem t ht).elim (h.mem t) .inr
  others other hne := (h'.others other hne).trans (h.others other hne)

theorem add (sch : Scheduler (String × Job)) (due : Nat) (period : Option Nat) (token : Token)
    (island : String) (job : Job) :
    Tended island token sch (sch.add due period token (island, job)).1 where
  numbered hn := hn.add due period token (island, job)
  mem t ht := by
    rcases Scheduler.mem_live_add ht with ht | rfl
    · exact .inl ht
    · exact .inr ⟨rfl, rfl⟩
  others other hne := by
    have hnew : ∀ ts : List (Timer (String × Job)), (∀ t ∈ ts, t.payload.1 = island) →
        ts.filter (·.payload.1 = other) = [] :=
      fun ts hts => List.filter_eq_nil_iff.2 fun t ht => by simpa [hts t ht] using Ne.symm hne
    unfold Scheduler.jobsOf
    rw [Scheduler.live_add, List.filter_append, hnew (List.filter _ _), List.append_nil]
    intro t ht
    rw [List.mem_singleton.1 (List.mem_filter.1 ht).1]

/-- To go on with some of the timers, as long as the others belong to the island. -/
theorem filter {p : Timer (String × Job) → Bool} (hlive : sch'.live = sch.live.filter p)
    (hnext : sch'.nextId = sch.nextId)
    (h : ∀ t ∈ sch.live, p t = false → t.payload.1 = island) : Tended island token sch sch' where
  numbered hn := hn.of_sublist (hlive ▸ List.filter_sublist.map _) hnext
  mem t ht := .inl (List.mem_filter.1 (hlive ▸ ht)).1
  others other hne := by
    unfold Scheduler.jobsOf
    rw [hlive, List.filter_filter]
    refine List.filter_congr fun t ht => ?_
    cases hp : p t with
    | true => exact Bool.and_true _
    | false => simp [h t ht hp, Ne.symm hne]

end Tended

/-- The timers that are cancelled are not live any more, and all others are. -/
theorem live_cancelAll (sch : Scheduler (String × Job)) (timers : List Nat) :
    (cancelAll sch timers).live = sch.live.filter (·.id ∉ timers) := by
  induction timers generalizing sch with
  | nil => exact (List.filter_eq_self.2 fun _ _ => by simp).symm
  | cons timer timers ih =>
    refine (ih (sch.cancel timer).1).trans ?_
    rw [Scheduler.live_cancel, List.filter_filter]
    refine List.filter_congr fun t _ => ?_
    simp [Bool.and_comm]

/-- New intervals of an island have its token. -/
theorem tended_schedule (token : Token) (island : String) (ws : List (Nat × Nat))
    (sch : Scheduler (String × Job)) :
    Tended island token sch (schedule token island ws sch).1 := by
  induction ws generalizing sch with
  | nil => exact .refl island token sch
  | cons w ws ih => exact (Tended.add sch _ _ token island (.interval w.1)).trans (ih _)

/-- Whose timers are its own can be brought in step without touching the timers of others. -/
theorem tended_syncTimers (least : Nat) {sch : Scheduler (String × Job)} {m : Mounted}
    (h : ∀ t ∈ sch.live, t.id ∈ m.timers.map (·.2) → t.payload.1 = m.island.id) :
    Tended m.island.id m.token sch (syncTimers least sch m).1 := by
  unfold syncTimers
  dsimp only
  split
  · exact .refl _ _ sch
  · obtain ⟨-, -, hnext⟩ := cancelAll_eq sch (m.timers.map (·.2))
    refine .trans (.filter (live_cancelAll sch _) hnext fun t ht hp => h t ht ?_)
      (tended_schedule m.token m.island.id _ _)
    simpa using hp

theorem tended_suspend (s : Session) (m : Mounted) (pending : List Continuation) :
    Tended m.island.id m.token s.scheduler (s.suspend m pending).scheduler :=
  List.foldlRecOn pending _ (motive := fun sch => Tended m.island.id m.token s.scheduler sch)
    (.refl _ _ _) fun _ h _ _ => h.trans (.add _ _ _ m.token m.island.id _)

/-- To pop a timer of an island takes it out or puts it off. -/
theorem tended_pop {sch sch' : Scheduler (String × Job)} {time : Nat} {t : Timer (String × Job)}
    (hn : sch.Numbered) (hpop : sch.pop time = (sch', some t)) :
    Tended t.payload.1 t.token sch sch' := by
  obtain ⟨hnext, rfl⟩ := Scheduler.pop_eq_some hpop
  obtain ⟨ht, -⟩ := Scheduler.of_nextDue? hnext
  refine ⟨fun hn => hn.fired t _, fun u hu => ?_, fun other hne => ?_⟩
  · rw [Scheduler.live_fired] at hu
    rcases Scheduler.mem_fired hu with hu | ⟨v, hv, hid, period, -, rfl⟩
    · exact .inl hu
    · obtain rfl := hn.eq_of_id hv ht hid
      exact .inr ⟨rfl, rfl⟩
  · unfold Scheduler.jobsOf
    rw [Scheduler.live_fired]
    refine Scheduler.filter_fired_of_not fun u hu hid => ?_
    obtain rfl := hn.eq_of_id hu ht hid
    exact ⟨decide_eq_false hne.symm, fun due => decide_eq_false hne.symm⟩

/-! ## Sessions -/

/-- The island that a live timer is for is mounted, and has the token of the timer. -/
structure Owned (s : Session) : Prop extends Timed s where
  numbered : s.scheduler.Numbered
  owner : ∀ t ∈ s.scheduler.live, ∃ m, Dict.get? s.mounted t.payload.1 = some m ∧ m.token = t.token

namespace Owned

variable {s s' : Session} (h : s.Owned)
include h

/-- The timers that an island knows are its own. -/
theorem payload_of_mem {id : String} {m : Mounted} (hm : Dict.get? s.mounted id = some m)
    {t : Timer (String × Job)} (ht : t ∈ s.scheduler.live) (hid : t.id ∈ m.timers.map (·.2)) :
    t.payload.1 = m.island.id := by
  obtain ⟨shown, hruns⟩ := h.runs id m hm
  rw [← hruns.keeps.ids, Scheduler.ofIsland_eq] at hid
  obtain ⟨e, he, hid⟩ := List.mem_map.1 hid
  obtain ⟨u, hu, hsome⟩ := List.mem_filterMap.1 he
  obtain ⟨hu, hisland⟩ := List.mem_filter.1 hu
  rw [(Timer.of_recurring? hsome).1] at hid
  obtain rfl := h.numbered.eq_of_id hu ht hid
  exact of_decide_eq_true hisland

theorem of_eq (ht : s'.Timed) (hm : s'.mounted = s.mounted) (hsch : s'.scheduler = s.scheduler) :
    s'.Owned where
  toTimed := ht
  numbered := hsch ▸ h.numbered
  owner := hm ▸ hsch ▸ h.owner

/-- All islands have kept their tokens, and there has been work on the timers of one of them. -/
theorem of_tended (ht : s'.Timed) {island : String} {token : Token}
    (hsch : Tended island token s.scheduler s'.scheduler)
    (hm : ∀ id m, Dict.get? s.mounted id = some m →
      ∃ m', Dict.get? s'.mounted id = some m' ∧ m'.token = m.token)
    (hown : ∃ m, Dict.get? s'.mounted island = some m ∧ m.token = token) : s'.Owned where
  toTimed := ht
  numbered := hsch.numbered h.numbered
  owner t ht := by
    rcases hsch.mem t ht with hold | ⟨rfl, rfl⟩
    · obtain ⟨m, hget, htoken⟩ := h.owner t hold
      obtain ⟨m', hget', hkept⟩ := hm _ m hget
      exact ⟨m', hget', hkept.trans htoken⟩
    · exact hown

/-! ## Events -/

theorem tended_rerender (store : Store) {m : Mounted}
    (hm : Dict.get? s.mounted m.island.id = some m) :
    Tended m.island.id m.token s.scheduler (s.rerender store m).scheduler :=
  tended_syncTimers (m := { m with
    handlers := (s.renderer.renderIsland store.toScope m.island).handlers }) _
    fun _ ht hid => h.payload_of_mem hm ht hid

/-- A rendering keeps the timers with their owners. -/
theorem rerender (store : Store) {m : Mounted} (hm : Dict.get? s.mounted m.island.id = some m)
    (ht : m.template ≠ none) : (s.rerender store m).Owned := by
  have hunmoved := Unmoved.rerender store hm
  have htoken : ∀ id x, Dict.get? s.mounted id = some x →
      ∃ x', Dict.get? (s.rerender store m).mounted id = some x' ∧ x'.token = x.token := by
    intro id x hx
    obtain ⟨x', hx', hbare⟩ := hunmoved.exists_bare hx
    exact ⟨x', hx', (congrArg Mounted.token hbare :)⟩
  exact h.of_tended (h.toTimed.rerender store hm ht) (h.tended_rerender store hm) htoken
    (htoken _ m hm)

theorem refresh (template : String) (store : Store) (names : List String) :
    (s.refresh template store names).1.Owned :=
  h.toSound.refresh_rec h template store names fun _ _ hs hm ht =>
    hs.rerender store hm (ht ▸ Option.some_ne_none _)

/-- An event keeps the timers with their owners. -/
theorem fire (island : String) {run : Trace → Outcome} (hrun : ByBatches run) :
    (s.fire island run).1.Owned := by
  have htimed := h.toTimed.fire island hrun
  have hunmoved := Unmoved.fire h.toSound island hrun
  rcases fire_cases s island hrun with he | ⟨m, template, store, u, storage, pending, hm, ht,
    hstore, hreach, he⟩
  · rwa [he]
  · rw [he] at htimed hunmoved ⊢
    have hheard : u.store.Heard := (h.heard template store hstore).of_frame hreach.frame.symm
    have hs := h.of_eq (h.toTimed.of_sound (h.toSound.store template hheard storage) rfl rfl rfl
      (Nat.le_refl _) rfl rfl) rfl rfl
    obtain ⟨m', hm', hbare⟩ := hunmoved.exists_bare (h.named island m hm ▸ hm)
    exact (hs.refresh template u.store _).of_tended htimed (tended_suspend _ m pending)
      (fun id x hx => ⟨x, hx, rfl⟩) ⟨m', hm', (congrArg Mounted.token hbare :)⟩

/-! ## Islands that come and go -/

/-- An island that settles owns its timers. -/
theorem settle (p : Pass) {island : Island} {placeholder : NodeId} (c : MountedComponent)
    {o : Opening}
    (htaken : s.document.attr? placeholder Hydration.stateAttr = some State.hydrating.name)
    (hfree : Dict.get? s.mounted island.id = none) (hopens : s.Opens island o) :
    (s.settle p island placeholder c o).Owned := by
  obtain ⟨timers, hmounted, -⟩ := settle_eq s p island placeholder c o
  have htended : Tended island.id s.nextToken s.scheduler
      (s.settle p island placeholder c o).scheduler :=
    tended_syncTimers (m := { island, placeholder, container := p.container
                              handlers := o.handlers, reads := o.reads, token := s.nextToken
                              timers := [], component := c, template := o.template })
      _ fun t _ hid => by cases hid
  refine h.of_tended (h.toTimed.settle p c htaken hfree hopens) htended (fun id m hm => ?_) ?_
  · rw [hmounted, Dict.get?_insert, if_neg]
    · exact ⟨m, hm, rfl⟩
    · rintro rfl
      cases hfree.symm.trans hm
  · rw [hmounted, Dict.get?_insert_self]
    exact ⟨_, rfl, rfl⟩

/-- An island that is taken away takes its timers along, since its own token has been cancelled. -/
theorem unmountOne (r : CleanupReport) (id : String) : (Session.unmountOne s r id).1.Owned := by
  have htimed := h.toTimed.unmountOne r id
  unfold Session.unmountOne at htimed ⊢
  split
  · exact h
  · rename_i m hm
    rw [hm] at htimed
    obtain ⟨-, -, hnext⟩ := cancelAll_eq (s.scheduler.cancelToken m.token) (m.timers.map (·.2))
    have hlive := live_cancelAll (s.scheduler.cancelToken m.token) (m.timers.map (·.2))
    rw [Scheduler.live_cancelToken, List.filter_filter] at hlive
    refine ⟨htimed, h.numbered.of_sublist (hlive ▸ List.filter_sublist.map _) hnext,
      fun t ht => ?_⟩
    obtain ⟨ht, hkept⟩ := List.mem_filter.1 (hlive ▸ ht)
    obtain ⟨x, hx, htoken⟩ := h.owner t ht
    refine ⟨x, (Dict.get?_erase _ _ _).trans ((if_neg ?_).trans hx), htoken⟩
    rintro rfl
    obtain rfl := Option.some.inj (hm.symm.trans hx)
    exact of_decide_eq_true (Bool.and_eq_true_iff.1 hkept).2 htoken.symm

theorem pop (time : Nat) : Owned { s with scheduler := (s.scheduler.pop time).1 } := by
  have htimed := timed_stable.pop time h.toTimed
  cases hpop : s.scheduler.pop time with
  | mk sch next =>
    rw [hpop] at htimed
    cases next with
    | none =>
      obtain ⟨-, rfl⟩ := Scheduler.pop_eq_none hpop
      exact ⟨htimed, h.numbered.of_sublist (by rw [Scheduler.live_live]) rfl, fun t ht =>
        h.owner t (Scheduler.live_live s.scheduler ▸ ht)⟩
    | some t =>
      obtain ⟨hnext, -⟩ := Scheduler.pop_eq_some hpop
      exact h.of_tended htimed (tended_pop h.numbered hpop) (fun id m hm => ⟨m, hm, rfl⟩)
        (h.owner t (Scheduler.of_nextDue? hnext).1)

end Owned

/-- With every step the timers keep to their owners. -/
theorem owned_stable : Stable Owned where
  load t scope hs := hs.of_eq (timed_stable.load t scope hs.toTimed) rfl rfl
  pop time hs := hs.pop time
  advanceTo time hs :=
    ⟨timed_stable.advanceTo time hs.toTimed, ⟨hs.numbered.nodup, hs.numbered.old⟩, hs.owner⟩
  fire island hs hrun := hs.fire island hrun
  take hs hid hfree := hs.of_eq (timed_stable.take hs.toTimed hid hfree) rfl rfl
  ensure hs he := by
    have htimed := timed_stable.ensure hs.toTimed he
    rcases ensureStore_eq_ok he with ⟨rfl, -⟩ | ⟨-, t, -, rfl⟩
    · exact hs
    · exact hs.of_eq htimed rfl rfl
  settle hs htaken hfree hopens := hs.settle _ _ htaken hfree hopens
  fail e hs htaken := by
    have htimed := timed_stable.fail e hs.toTimed htaken
    obtain ⟨document, hfail⟩ := fail_eq _ _ e
    rw [hfail] at htimed ⊢
    exact hs.of_eq htimed rfl rfl
  record island outcome hs := hs.of_eq (timed_stable.record island outcome hs.toTimed) rfl rfl
  unmountOne r id hs := hs.unmountOne r id
  dropStores hs := hs.of_eq (timed_stable.dropStores hs.toTimed) rfl rfl

theorem Unhydrated.owned {s : Session} (hs : s.Unhydrated) (hsch : s.scheduler = {}) : s.Owned where
  toTimed := hs.timed hsch
  numbered := hsch ▸ ⟨List.nodup_nil, List.forall_mem_nil _⟩
  owner := hsch ▸ List.forall_mem_nil _

/-! ## Pages without islands -/

/-- Nothing is mounted, and nothing is left to do. -/
structure Idle (s : Session) : Prop where
  mounted : s.mounted = []
  stores : s.stores = []
  pending : s.pendingJobs = 0

/-- Only such calls bring islands to life. -/
def Call.hydrates : Call → Bool
  | .hydrate .. => true
  | _ => false

theorem mounted_unmountOne (s : Session) (r : CleanupReport) (id : String) :
    (unmountOne s r id).1.mounted = Dict.erase s.mounted id := by
  unfold unmountOne
  split
  · rename_i hnone
    refine (List.filter_eq_self.2 fun e he => decide_eq_true ?_).symm
    rintro rfl
    exact Dict.get?_eq_none_iff.1 hnone (List.mem_map_of_mem he)
  · rfl

/-- Of the islands those are left that are not to go. -/
theorem mounted_foldl_unmountOne (ids : List String) (s : Session) (r : CleanupReport) :
    (ids.foldl (fun sr id => unmountOne sr.1 sr.2 id) (s, r)).1.mounted =
      s.mounted.filter (·.1 ∉ ids) := by
  induction ids generalizing s r with
  | nil => exact (List.filter_eq_self.2 fun _ _ => by simp).symm
  | cons id ids ih =>
    refine (ih (unmountOne s r id).1 (unmountOne s r id).2).trans ?_
    rw [mounted_unmountOne, Dict.erase, List.filter_filter]
    refine List.filter_congr fun e _ => ?_
    simp [Bool.and_comm]

/-- Stores have islands, so without islands there are none. -/
theorem stores_dropStores {s : Session} (h : s.mounted = []) : s.dropStores.stores = [] :=
  List.filter_eq_nil_iff.2 fun _ _ => by simp [h]

theorem Owned.idle_of_nil {s : Session} (h : s.Owned) (hm : s.mounted = []) (hs : s.stores = []) :
    s.Idle := by
  refine ⟨hm, hs, List.length_eq_zero_iff.2 (List.eq_nil_iff_forall_not_mem.2 fun t ht => ?_)⟩
  obtain ⟨m, hget, -⟩ := h.owner t ht
  rw [hm] at hget
  cases hget

/-- Nothing is left to do after a cleanup. -/
theorem Owned.idle_cleanup {s : Session} (h : s.Owned) : s.cleanup.1.Idle := by
  have hmounted : s.cleanup.1.mounted = [] :=
    (mounted_foldl_unmountOne (Dict.keys s.mounted) s {}).trans
      (List.filter_eq_nil_iff.2 fun e he => by
        have hmem : e.1 ∈ Dict.keys s.mounted := List.mem_map_of_mem he
        simp [hmem])
  exact (owned_stable.call h .cleanup).idle_of_nil hmounted (stores_dropStores hmounted)

namespace Idle

variable {s : Session} (h : s.Idle)
include h

theorem get?_mounted (id : String) : Dict.get? s.mounted id = none := by
  rw [h.mounted]
  rfl

theorem of_live {s' : Session} (hm : s'.mounted = s.mounted) (hs : s'.stores = s.stores)
    (hlive : s'.scheduler.live = s.scheduler.live) : s'.Idle :=
  ⟨hm.trans h.mounted, hs.trans h.stores, (congrArg List.length hlive).trans h.pending⟩

/-- There is nobody to take off. -/
theorem unmount : s.unmount [] = (s, {}) := by
  have hstores : s.dropStores.stores = s.stores := (stores_dropStores h.mounted).trans h.stores.symm
  show ({ s with stores := s.dropStores.stores }, ({} : CleanupReport)) = (s, {})
  rw [hstores]

/-- A session with nothing left to do has nothing to clean up. -/
theorem cleanup : s.cleanup = (s, {}) := by
  have hunmount := h.unmount
  unfold Session.cleanup
  rwa [h.mounted]

theorem cleanupIn (containerId : String) : s.cleanupIn containerId = (s, {}) := by
  have hunmount := h.unmount
  unfold Session.cleanupIn
  split
  · rfl
  · rwa [h.mounted]

/-- Nothing is due, however much time passes. -/
theorem advance (ms : Nat) : (s.advance ms).1.Idle ∧ (s.advance ms).2 = {} := by
  have hlive : s.scheduler.live = [] := List.length_eq_zero_iff.1 h.pending
  have hpop : s.scheduler.pop (laterBy s.now ms) =
      ({ s.scheduler with timers := s.scheduler.live }, none) := by
    unfold Scheduler.pop
    dsimp only
    rw [hlive]
    rfl
  unfold Session.advance
  dsimp only
  rw [runDue_none hpop]
  exact ⟨h.of_live rfl rfl (Scheduler.live_live s.scheduler), rfl⟩

/-- It takes a hydration to change this. -/
theorem call {c : Call} (hc : c.hydrates = false) : (s.call c).Idle := by
  cases c with
  | load t scope => exact h.of_live rfl rfl rfl
  | hydrate => cases hc
  | dispatch island kind index =>
    show (s.dispatch island kind index).1.Idle
    unfold dispatch
    rwa [h.get?_mounted]
  | change island index value =>
    show (s.change island index value).1.Idle
    unfold change
    rwa [h.get?_mounted]
  | advance ms => exact (h.advance ms).1
  | cleanup =>
    show s.cleanup.1.Idle
    rwa [h.cleanup]
  | cleanupIn containerId =>
    show (s.cleanupIn containerId).1.Idle
    rwa [h.cleanupIn]

/-- Without islands that come to life there is nothing to do, whatever is called. -/
theorem run {calls : List Call} (hc : ∀ c ∈ calls, c.hydrates = false) : (s.run calls).Idle :=
  List.foldlRecOn calls _ (motive := Idle) h fun _ h c hmem => h.call (hc c hmem)

end Idle

/-- Whatever is called, the island that a live timer is for is mounted and has the token of the
timer. So nothing is left after a cleanup: another one has nothing to report, and no event happens
as time passes until islands are brought to life again. -/
theorem owned_of_run {s : Session} (hs : s.Unhydrated) (hsch : s.scheduler = {})
    (calls : List Call) :
    (∀ t ∈ (s.run calls).scheduler.live,
        ∃ m, Dict.get? (s.run calls).mounted t.payload.1 = some m ∧ m.island.id = t.payload.1 ∧
          m.token = t.token) ∧
      (s.run calls).cleanup.1.Idle ∧
      (s.run calls).cleanup.1.cleanup.2 = {} ∧
      ∀ later : List Call, (∀ c ∈ later, c.hydrates = false) → ∀ ms,
        (((s.run calls).cleanup.1.run later).advance ms).2 = {} := by
  have hrun := owned_stable.run (hs.owned hsch) calls
  have hidle := hrun.idle_cleanup
  refine ⟨fun t ht => ?_, hidle, by rw [hidle.cleanup], fun later hlater ms => ?_⟩
  · obtain ⟨m, hm, htoken⟩ := hrun.owner t ht
    exact ⟨m, hm, hrun.named _ m hm, htoken⟩
  · exact ((hidle.run hlater).advance ms).2

/-- The timer of an interval goes with its island. -/
theorem owned_pulse :
    ∃ t, (compile {} (pulseMarkup "900")).template? = some t ∧
      ((staged t).run (pulse t)).pendingJobs = 1 ∧
      ((staged t).run (pulse t)).cleanup.1.Idle ∧
      (((staged t).run (pulse t)).cleanup.1.advance 1000).2 = {} := by
  have ht : ((compile {} (pulseMarkup "900")).template?.map fun t =>
      ((staged t).run (pulse t)).pendingJobs) = some 1 := by
    decide +kernel
  obtain ⟨t, htemplate, hjobs⟩ := Option.map_eq_some_iff.1 ht
  obtain ⟨hs, -, hsch⟩ := staged_unhydrated t
  obtain ⟨-, hidle, -, hquiet⟩ := owned_of_run hs hsch (pulse t)
  exact ⟨t, htemplate, hjobs, hidle, hquiet [] (List.forall_mem_nil _) 1000⟩

end Session

end Archipelago
