import Archipelago.Proofs.Scheduler
import Archipelago.Proofs.Session.Display

/-!
# Timers and handlers

Each mounted island owns the timers of its interval handlers and no others come back. Timers are
made anew only when other handlers are intervals than before. So there is always one timer for each
interval handler, with the period that the handler had when they were made.
-/

namespace Archipelago

open Hydration (MountedComponent State)
open Page (Handler)

/-- The timers of one island that come back. -/
def Scheduler.ofIsland (s : Scheduler (String × Session.Job)) (island : String) :
    List (Recurring (String × Session.Job)) := s.recurring.filter (·.payload.1 = island)

namespace Session

/-! ## Timers of intervals -/

/-- The timers that intervals get, with names from `first` on. -/
def entries (token : Token) (island : String) (first : Nat) (ws : List (Nat × Nat)) :
    List (Recurring (String × Job)) :=
  (ws.zipIdx first).map fun x => ⟨x.2, max x.1.2 1, token, (island, .interval x.1.1)⟩

/-- The same as an island keeps them: the places of the handlers and the names of the timers. -/
def numbered (first : Nat) (ws : List (Nat × Nat)) : List (Nat × Nat) :=
  (ws.zipIdx first).map fun x => (x.1.1, x.2)

theorem places_numbered (first : Nat) (ws : List (Nat × Nat)) :
    (numbered first ws).map (·.1) = ws.map (·.1) := by
  induction ws generalizing first with
  | nil => rfl
  | cons w ws ih => exact congrArg (List.cons w.1) (ih (first + 1))

theorem ids_entries (token : Token) (island : String) (first : Nat) (ws : List (Nat × Nat)) :
    (entries token island first ws).map (·.id) = (numbered first ws).map (·.2) := by
  unfold entries numbered
  rw [List.map_map, List.map_map]
  rfl

theorem island_of_mem_entries {token : Token} {island : String} {first : Nat}
    {ws : List (Nat × Nat)} {e : Recurring (String × Job)}
    (he : e ∈ entries token island first ws) : e.payload.1 = island ∧ e.token = token := by
  obtain ⟨x, -, rfl⟩ := List.mem_map.1 he
  exact ⟨rfl, rfl⟩

/-- To schedule intervals adds their timers behind all others. -/
theorem schedule_eq {token : Token} (island : String) (ws : List (Nat × Nat))
    {sch : Scheduler (String × Job)} (ho : sch.Orderly) (ht : token ∉ sch.cancelled) :
    (schedule token island ws sch).1.recurring =
        sch.recurring ++ entries token island sch.nextId ws ∧
      (schedule token island ws sch).2 = numbered sch.nextId ws ∧
      (schedule token island ws sch).1.cancelled = sch.cancelled ∧
      (schedule token island ws sch).1.Orderly := by
  induction ws generalizing sch with
  | nil => exact ⟨(List.append_nil _).symm, rfl, rfl, ho⟩
  | cons w ws ih =>
    obtain ⟨hr, hn, hc, ho'⟩ := ih (ho.every w.2 (island, .interval w.1) ht) ht
    refine ⟨?_, ?_, hc, ho'⟩
    · refine hr.trans ?_
      rw [Scheduler.recurring_every _ _ _ ht, List.append_assoc]
      rfl
    · exact congrArg _ hn

theorem cancelAll_eq (sch : Scheduler (String × Job)) (timers : List Nat) :
    (cancelAll sch timers).recurring = sch.recurring.filter (·.id ∉ timers) ∧
      (cancelAll sch timers).cancelled = sch.cancelled ∧
      (cancelAll sch timers).nextId = sch.nextId := by
  induction timers generalizing sch with
  | nil => exact ⟨(List.filter_eq_self.2 fun _ _ => by simp).symm, rfl, rfl⟩
  | cons timer timers ih =>
    obtain ⟨hr, hc, hn⟩ := ih (sch.cancel timer).1
    refine ⟨hr.trans ?_, hc, hn⟩
    rw [Scheduler.recurring_cancel, List.filter_filter]
    refine List.filter_congr fun e _ => ?_
    simp [Bool.and_comm]

/-- The timers of an island can be told from all others by their names. -/
theorem filter_ids_ofIsland {sch : Scheduler (String × Job)} (ho : sch.Orderly) {island : String}
    {timers : List Nat} (h : (sch.ofIsland island).map (·.id) = timers) :
    sch.recurring.filter (·.id ∉ timers) = sch.recurring.filter (·.payload.1 ≠ island) := by
  refine List.filter_congr fun e he => ?_
  have hown : e.id ∈ timers ↔ e.payload.1 = island := by
    rw [← h, List.mem_map]
    constructor
    · rintro ⟨e', he', hid⟩
      obtain ⟨he', hisland⟩ := List.mem_filter.1 he'
      obtain rfl := List.inj_on_of_nodup_map ho.nodup he' he hid
      exact of_decide_eq_true hisland
    · exact fun hisland => ⟨e, List.mem_filter.2 ⟨he, decide_eq_true hisland⟩, rfl⟩
  simp [hown]

/-! ## One island -/

/-- An island that has the timers of these intervals, and knows them. -/
def Mounted.Keeps (sch : Scheduler (String × Job)) (m : Mounted) (ws : List (Nat × Nat)) : Prop :=
  ∃ first, sch.ofIsland m.island.id = entries m.token m.island.id first ws ∧
    m.timers = numbered first ws

theorem Mounted.Keeps.ids {sch : Scheduler (String × Job)} {m : Mounted} {ws : List (Nat × Nat)}
    (h : m.Keeps sch ws) : (sch.ofIsland m.island.id).map (·.id) = m.timers.map (·.2) := by
  obtain ⟨first, hown, htimers⟩ := h
  rw [hown, htimers, ids_entries]

theorem Mounted.Keeps.places {sch : Scheduler (String × Job)} {m : Mounted}
    {ws : List (Nat × Nat)} (h : m.Keeps sch ws) : m.timers.map (·.1) = ws.map (·.1) := by
  obtain ⟨first, -, htimers⟩ := h
  rw [htimers, places_numbered]

/-- What it means for a scheduler that the timers of one island are made anew. -/
structure Renewed (island : String) (sch sch' : Scheduler (String × Job)) : Prop where
  orderly : sch'.Orderly
  cancelled : sch'.cancelled = sch.cancelled
  others : ∀ other, other ≠ island → sch'.ofIsland other = sch.ofIsland other

theorem Renewed.refl {sch : Scheduler (String × Job)} (h : sch.Orderly) (island : String) :
    Renewed island sch sch := ⟨h, rfl, fun _ _ => rfl⟩

/-- An island whose timers are replaced has the new ones, and no other island is touched. -/
theorem ofIsland_replaced {sch sch' : Scheduler (String × Job)} {island : String}
    {es : List (Recurring (String × Job))}
    (h : sch'.recurring = sch.recurring.filter (·.payload.1 ≠ island) ++ es)
    (hes : ∀ e ∈ es, e.payload.1 = island) :
    sch'.ofIsland island = es ∧
      ∀ other, other ≠ island → sch'.ofIsland other = sch.ofIsland other := by
  unfold Scheduler.ofIsland
  refine ⟨?_, fun other hne => ?_⟩
  · rw [h, List.filter_append, List.filter_filter]
    have hold : sch.recurring.filter (fun e => decide (e.payload.1 = island) &&
        decide (e.payload.1 ≠ island)) = [] :=
      List.filter_eq_nil_iff.2 fun e _ => by simp
    rw [hold, List.nil_append]
    exact List.filter_eq_self.2 fun e he => decide_eq_true (hes e he)
  · rw [h, List.filter_append, List.filter_filter]
    have hnew : es.filter (·.payload.1 = other) = [] :=
      List.filter_eq_nil_iff.2 fun e he => by simpa [hes e he] using Ne.symm hne
    rw [hnew, List.append_nil]
    refine List.filter_congr fun e _ => ?_
    by_cases he : e.payload.1 = other
    · simp [he, hne]
    · simp [he]

/-- An island that is brought in step goes on with the timers that it has, if the same handlers are
intervals; else it gets new ones. -/
theorem syncTimers_keeps {least : Nat} {sch : Scheduler (String × Job)} {m : Mounted}
    {old : List (Nat × Nat)} (ho : sch.Orderly) (ht : m.token ∉ sch.cancelled)
    (h : m.Keeps sch old) :
    Renewed m.island.id sch (syncTimers least sch m).1 ∧
      ((syncTimers least sch m).2.Keeps (syncTimers least sch m).1 (intervals least m.handlers) ∨
        (syncTimers least sch m).2.Keeps (syncTimers least sch m).1 old ∧
          old.map (·.1) = (intervals least m.handlers).map (·.1)) := by
  unfold syncTimers
  dsimp only
  split
  · rename_i hsame
    exact ⟨.refl ho _, .inr ⟨h, (hsame.trans h.places).symm⟩⟩
  · obtain ⟨hr, hc, hn⟩ := cancelAll_eq sch (m.timers.map (·.2))
    rw [filter_ids_ofIsland ho h.ids] at hr
    have ho' : (cancelAll sch (m.timers.map (·.2))).Orderly :=
      ho.of_sublist (hr ▸ List.filter_sublist) hn
    obtain ⟨hr', hn', hc', ho''⟩ := schedule_eq m.island.id (intervals least m.handlers) ho'
      (hc ▸ ht)
    rw [hr] at hr'
    obtain ⟨hown, hothers⟩ := ofIsland_replaced hr' fun e he => (island_of_mem_entries he).1
    exact ⟨⟨ho'', hc'.trans hc, hothers⟩, .inl ⟨_, hown, hn'⟩⟩

theorem Renewed.mem {island : String} {sch sch' : Scheduler (String × Job)}
    (h : Renewed island sch sch') {e : Recurring (String × Job)} (he : e ∈ sch'.recurring)
    (hne : e.payload.1 ≠ island) : e ∈ sch.recurring := by
  have hmem : e ∈ sch'.ofIsland e.payload.1 := List.mem_filter.2 ⟨he, decide_eq_true rfl⟩
  rw [h.others _ hne] at hmem
  exact (List.mem_filter.1 hmem).1

/-! ## Sessions -/

/-- The handlers are those of some rendering of the island. -/
def Draws (s : Session) (i : Island) (handlers : List Handler) : Prop :=
  ∃ store : Store, handlers = (s.renderer.renderIsland store.toScope i).handlers

/-- The timers of an island are for the intervals of a rendering of it, which has its intervals in
the same places as the current one. -/
structure Mounted.Runs (s : Session) (m : Mounted) (shown : List Handler) : Prop where
  keeps : m.Keeps s.scheduler (intervals s.config.hydration.minIntervalMs shown)
  places : (intervals s.config.hydration.minIntervalMs shown).map (·.1) =
    (intervals s.config.hydration.minIntervalMs m.handlers).map (·.1)
  drawn : m.template ≠ none → s.Draws m.island shown ∧ s.Draws m.island m.handlers

/-- Every timer that comes back belongs to a mounted island, which has the timers that it knows. The
token of an island is its own and has not been cancelled. -/
structure Timed (s : Session) : Prop extends Sound s where
  orderly : s.scheduler.Orderly
  owned : ∀ e ∈ s.scheduler.recurring, Dict.get? s.mounted e.payload.1 ≠ none
  live : ∀ id m, Dict.get? s.mounted id = some m →
    m.token ∉ s.scheduler.cancelled ∧ m.token < s.nextToken
  spent : ∀ token ∈ s.scheduler.cancelled, token < s.nextToken
  distinct : ∀ id id' m m', Dict.get? s.mounted id = some m → Dict.get? s.mounted id' = some m' →
    m.token = m'.token → id = id'
  runs : ∀ id m, Dict.get? s.mounted id = some m → ∃ shown, m.Runs s shown

theorem Mounted.Runs.of_ofIsland {s t : Session} {m : Mounted} {shown : List Handler}
    (h : m.Runs s shown)
    (hr : t.scheduler.ofIsland m.island.id = s.scheduler.ofIsland m.island.id)
    (hc : t.config = s.config) : m.Runs t shown := by
  obtain ⟨⟨first, hown, htimers⟩, hplaces, hdrawn⟩ := h
  refine ⟨⟨first, ?_, ?_⟩, ?_, ?_⟩
  · rw [hr, hown, hc]
  · rw [htimers, hc]
  · rw [hc, hplaces]
  · unfold Draws renderer at hdrawn ⊢
    rwa [hc]

namespace Timed

variable {s t : Session} (h : s.Timed)
include h

/-- Nothing has changed about islands and timers, time and the timers that do not come back left
aside. -/
theorem of_sound (hs : t.Sound) (hm : t.mounted = s.mounted)
    (hr : t.scheduler.recurring = s.scheduler.recurring)
    (hcancelled : t.scheduler.cancelled = s.scheduler.cancelled)
    (hid : s.scheduler.nextId ≤ t.scheduler.nextId) (htoken : t.nextToken = s.nextToken)
    (hc : t.config = s.config) : t.Timed where
  toSound := hs
  orderly := ⟨hr ▸ h.orderly.nodup, fun e he => (h.orderly.old e (hr ▸ he)).trans_le hid⟩
  owned := by rw [hr, hm]; exact h.owned
  live := by rw [hm, hcancelled, htoken]; exact h.live
  spent := by rw [hcancelled, htoken]; exact h.spent
  distinct := by rw [hm]; exact h.distinct
  runs id m hget := by
    obtain ⟨shown, hruns⟩ := h.runs id m (hm ▸ hget)
    exact ⟨shown, hruns.of_ofIsland (by rw [Scheduler.ofIsland, hr, Scheduler.ofIsland]) hc⟩

/-- An island that has all its timers is put among the mounted ones and brought in step. -/
theorem put (hs : t.Sound) {m : Mounted} {old : List (Nat × Nat)}
    (hm : t.mounted = Dict.insert s.mounted m.island.id
      (syncTimers s.config.hydration.minIntervalMs s.scheduler m).2)
    (hsch : t.scheduler = (syncTimers s.config.hydration.minIntervalMs s.scheduler m).1)
    (hc : t.config = s.config) (htoken : s.nextToken ≤ t.nextToken)
    (hlive : m.token ∉ s.scheduler.cancelled ∧ m.token < t.nextToken)
    (hdistinct : ∀ id x, Dict.get? s.mounted id = some x → x.token = m.token → id = m.island.id)
    (hkeeps : m.Keeps s.scheduler old)
    (hold : old.map (·.1) =
        (intervals s.config.hydration.minIntervalMs m.handlers).map (·.1) →
      ∃ shown, old = intervals s.config.hydration.minIntervalMs shown ∧
        (m.template ≠ none → s.Draws m.island shown))
    (hdrawn : m.template ≠ none → s.Draws m.island m.handlers) : t.Timed := by
  obtain ⟨hrenewed, hnow⟩ := syncTimers_keeps h.orderly hlive.1 hkeeps
  obtain ⟨sch, timers, hsync⟩ :=
    syncTimers_mounted s.config.hydration.minIntervalMs s.scheduler m
  rw [hsync] at hm hsch hrenewed hnow
  have hdraws : t.Draws = s.Draws := by
    unfold Draws renderer
    rw [hc]
  have hget : ∀ id x, Dict.get? t.mounted id = some x →
      id = m.island.id ∧ x = { m with timers } ∨
        id ≠ m.island.id ∧ Dict.get? s.mounted id = some x := by
    intro id x hx
    rw [hm, Dict.get?_insert] at hx
    split at hx
    · rename_i he
      exact .inl ⟨he.symm, (Option.some.inj hx).symm⟩
    · rename_i hne
      exact .inr ⟨Ne.symm hne, hx⟩
  refine ⟨hs, ?_, ?_, ?_, ?_, ?_, ?_⟩
  · rw [hsch]
    exact hrenewed.orderly
  · intro e he
    rw [hm, Dict.get?_insert]
    split
    · exact Option.some_ne_none _
    · rename_i hne
      exact h.owned e (hrenewed.mem (hsch ▸ he) (Ne.symm hne))
  · intro id x hx
    rw [hsch]
    show x.token ∉ sch.cancelled ∧ _
    rw [hrenewed.cancelled]
    rcases hget id x hx with ⟨-, rfl⟩ | ⟨-, hx⟩
    · exact hlive
    · exact ⟨(h.live id x hx).1, (h.live id x hx).2.trans_le htoken⟩
  · intro token hspent
    rw [hsch, hrenewed.cancelled] at hspent
    exact (h.spent token hspent).trans_le htoken
  · intro id id' x x' hx hx' he
    rcases hget id x hx with ⟨hid, rfl⟩ | ⟨-, hx⟩
    · rcases hget id' x' hx' with ⟨hid', rfl⟩ | ⟨-, hx'⟩
      · rw [hid, hid']
      · rw [hid, hdistinct id' x' hx' he.symm]
    · rcases hget id' x' hx' with ⟨hid', rfl⟩ | ⟨-, hx'⟩
      · rw [hid', hdistinct id x hx he]
      · exact h.distinct id id' x x' hx hx' he
  · intro id x hx
    rcases hget id x hx with ⟨-, rfl⟩ | ⟨hne, hx⟩
    · rcases hnow with hnow | ⟨hnow, hplaces⟩
      · exact ⟨m.handlers, hsch ▸ hc ▸ hnow, rfl, fun hd => hdraws ▸ ⟨hdrawn hd, hdrawn hd⟩⟩
      · obtain ⟨shown, rfl, hshown⟩ := hold hplaces
        exact ⟨shown, hsch ▸ hc ▸ hnow, hc ▸ hplaces,
          fun hd => hdraws ▸ ⟨hshown hd, hdrawn hd⟩⟩
    · obtain ⟨shown, hruns⟩ := h.runs id x hx
      refine ⟨shown, hruns.of_ofIsland ?_ hc⟩
      rw [hsch]
      exact hrenewed.others _ (by rwa [h.named id x hx])

/-! ## Events -/

theorem rerender (store : Store) {m : Mounted} (hm : Dict.get? s.mounted m.island.id = some m)
    (ht : m.template ≠ none) : (s.rerender store m).Timed := by
  obtain ⟨shown, hruns⟩ := h.runs _ m hm
  obtain ⟨hlive, htoken⟩ := h.live _ m hm
  have hsound := h.toSound.rerender store hm ht
  have hdrawn := hruns.drawn ht
  obtain ⟨sch, timers, hsync⟩ := syncTimers_mounted s.config.hydration.minIntervalMs s.scheduler
    { m with handlers := (s.renderer.renderIsland store.toScope m.island).handlers }
  refine h.put
    (m := { m with handlers := (s.renderer.renderIsland store.toScope m.island).handlers })
    hsound ?_ rfl rfl (Nat.le_refl _) ⟨hlive, htoken⟩
    (fun id x hx he => h.distinct id _ x m hx hm he) hruns.keeps
    (fun _ => ⟨shown, rfl, fun _ => hdrawn.1⟩) (fun _ => ⟨store, rfl⟩)
  simp only [Session.rerender, hsync]

theorem refresh (template : String) (store : Store) (names : List String) :
    (s.refresh template store names).1.Timed :=
  h.toSound.refresh_rec h template store names fun _ _ hs hm ht =>
    hs.rerender store hm (ht ▸ Option.some_ne_none _)

omit h in
/-- What is suspended comes back once only. -/
theorem suspend_scheduler (s : Session) (m : Mounted) (pending : List Continuation) :
    (s.suspend m pending).scheduler.recurring = s.scheduler.recurring ∧
      (s.suspend m pending).scheduler.cancelled = s.scheduler.cancelled ∧
      s.scheduler.nextId ≤ (s.suspend m pending).scheduler.nextId := by
  induction pending generalizing s with
  | nil => exact ⟨rfl, rfl, Nat.le_refl _⟩
  | cons c pending ih =>
    obtain ⟨hr, hc, hid⟩ := ih
      { s with scheduler := (s.scheduler.once c.delayMs m.token (m.island.id, .resume c)).1 }
    refine ⟨hr.trans (Scheduler.recurring_once _ _ _ _), hc, Nat.le_trans ?_ hid⟩
    exact Nat.le_succ _

theorem suspend (m : Mounted) (pending : List Continuation) : (s.suspend m pending).Timed := by
  obtain ⟨hr, hc, hid⟩ := suspend_scheduler s m pending
  exact h.of_sound (h.toSound.of_eq rfl rfl rfl) rfl hr hc hid rfl rfl

theorem fire (island : String) {run : Trace → Outcome} (hrun : ByBatches run) :
    (s.fire island run).1.Timed := by
  rcases fire_cases s island hrun with he | ⟨m, template, store, u, storage, pending, hm, ht,
    hstore, hreach, he⟩
  · rwa [he]
  · rw [he]
    have hheard : u.store.Heard := (h.heard template store hstore).of_frame hreach.frame.symm
    have hs := h.of_sound (h.toSound.store template hheard storage) rfl rfl rfl (Nat.le_refl _)
      rfl rfl
    exact (hs.refresh template u.store _).suspend m pending

/-! ## Islands that come and go -/

/-- A new island gets a token that no other has, and there are no timers under its name. -/
theorem settle (p : Pass) {island : Island} {placeholder : NodeId} (c : MountedComponent)
    {o : Opening}
    (htaken : s.document.attr? placeholder Hydration.stateAttr = some State.hydrating.name)
    (hfree : Dict.get? s.mounted island.id = none) (hopens : s.Opens island o) :
    (s.settle p island placeholder c o).Timed := by
  have hown : s.scheduler.ofIsland island.id = [] :=
    List.filter_eq_nil_iff.2 fun e he hi =>
      h.owned e he ((of_decide_eq_true hi : e.payload.1 = island.id) ▸ hfree)
  let m : Mounted :=
    { island, placeholder, container := p.container, handlers := o.handlers, reads := o.reads
      token := s.nextToken, timers := [], component := c, template := o.template }
  have hkeeps : m.Keeps s.scheduler [] := ⟨0, hown, rfl⟩
  refine h.put
    (h.toSound.settle p c htaken hopens) rfl rfl rfl (Nat.le_succ _)
    ⟨fun hspent => Nat.lt_irrefl _ (h.spent _ hspent), Nat.lt_succ_self _⟩ ?_ hkeeps ?_ ?_
  · exact fun id x hx he => absurd (h.live id x hx).2 (he ▸ Nat.lt_irrefl _)
  · intro hnone
    refine ⟨o.handlers, (List.map_eq_nil_iff.1 hnone.symm).symm, fun hd => ?_⟩
    rcases hopens with ⟨html, rfl⟩ | ⟨store, -, rfl⟩
    · exact absurd rfl hd
    · exact ⟨store, rfl⟩
  · intro hd
    rcases hopens with ⟨html, rfl⟩ | ⟨store, -, rfl⟩
    · exact absurd rfl hd
    · exact ⟨store, rfl⟩

/-- The token of a timer tells to which island it belongs. -/
theorem island_of_token {id : String} {m : Mounted} (hm : Dict.get? s.mounted id = some m)
    {e : Recurring (String × Job)} (he : e ∈ s.scheduler.recurring) (ht : e.token = m.token) :
    e.payload.1 = id := by
  obtain ⟨x, hx⟩ := Option.ne_none_iff_exists'.1 (h.owned e he)
  obtain ⟨shown, ⟨first, hown, -⟩, -⟩ := h.runs _ x hx
  have hmem : e ∈ s.scheduler.ofIsland x.island.id :=
    List.mem_filter.2 ⟨he, decide_eq_true (h.named _ x hx).symm⟩
  rw [hown] at hmem
  exact h.distinct _ id x m hx hm ((island_of_mem_entries hmem).2.symm.trans ht)

/-- With an island go its timers, and no others. The token and the names of its timers say the same
about which ones go. -/
theorem unmountOne (r : CleanupReport) (id : String) : (Session.unmountOne s r id).1.Timed := by
  have hsound := h.toSound.unmountOne r id
  unfold Session.unmountOne at hsound ⊢
  split
  · exact h
  · rename_i m hm
    rw [hm] at hsound
    obtain ⟨shown, hruns⟩ := h.runs id m hm
    have hname := h.named id m hm
    obtain ⟨hr, hc, hn⟩ := cancelAll_eq (s.scheduler.cancelToken m.token) (m.timers.map (·.2))
    have hgone : (cancelAll (s.scheduler.cancelToken m.token) (m.timers.map (·.2))).recurring =
        s.scheduler.recurring.filter (·.payload.1 ≠ id) := by
      rw [hr, Scheduler.recurring_cancelToken, List.filter_comm,
        filter_ids_ofIsland h.orderly hruns.keeps.ids, hname]
      refine List.filter_eq_self.2 fun e he => ?_
      obtain ⟨he, hne⟩ := List.mem_filter.1 he
      refine decide_eq_true fun htoken => of_decide_eq_true hne ?_
      exact h.island_of_token hm he htoken
    have hreplaced := hgone.trans (List.append_nil _).symm
    obtain ⟨-, hothers⟩ := ofIsland_replaced hreplaced (List.forall_mem_nil _)
    refine ⟨hsound, ?_, ?_, ?_, ?_, ?_, ?_⟩
    · exact h.orderly.of_sublist (hgone ▸ List.filter_sublist) hn
    · intro e he
      obtain ⟨he, hne⟩ := List.mem_filter.1 (hgone ▸ he)
      rw [Dict.get?_erase, if_neg (Ne.symm (of_decide_eq_true hne))]
      exact h.owned e he
    · intro id' x hx
      obtain ⟨hne, hx⟩ := Dict.get?_erase_eq_some hx
      refine ⟨?_, (h.live id' x hx).2⟩
      show x.token ∉ Scheduler.cancelled _
      rw [hc]
      exact fun hspent => (List.mem_cons.1 hspent).elim
        (fun he => hne (h.distinct id' id x m hx hm he)) (h.live id' x hx).1
    · intro token hspent
      rcases List.mem_cons.1 (hc ▸ hspent) with rfl | hspent
      · exact (h.live id m hm).2
      · exact h.spent token hspent
    · exact fun id' id'' x x' hx hx' =>
        h.distinct id' id'' x x' (Dict.get?_erase_eq_some hx).2 (Dict.get?_erase_eq_some hx').2
    · intro id' x hx
      obtain ⟨hne, hx⟩ := Dict.get?_erase_eq_some hx
      obtain ⟨shown, hruns⟩ := h.runs id' x hx
      exact ⟨shown, hruns.of_ofIsland (hothers _ (by rwa [h.named id' x hx])) rfl⟩

end Timed

/-- Every step keeps the timers of all islands. -/
theorem timed_stable : Stable Timed where
  load t scope hs := hs.of_sound (hs.toSound.of_eq rfl rfl rfl) rfl rfl rfl (Nat.le_refl _) rfl rfl
  pop {s} time hs := hs.of_sound (hs.toSound.of_eq rfl rfl rfl) rfl (s.scheduler.recurring_pop time)
    (s.scheduler.pop_cancelled time) (s.scheduler.pop_nextId time).ge rfl rfl
  advanceTo time hs :=
    hs.of_sound (hs.toSound.of_eq rfl rfl rfl) rfl rfl rfl (Nat.le_refl _) rfl rfl
  fire island hs hrun := hs.fire island hrun
  take hs hid hfree :=
    hs.of_sound (sound_stable.take hs.toSound hid hfree) rfl rfl rfl (Nat.le_refl _) rfl rfl
  ensure hs he := by
    have hsound := hs.toSound.ensure he
    rcases ensureStore_eq_ok he with ⟨rfl, -⟩ | ⟨-, t, -, rfl⟩
    · exact hs
    · exact hs.of_sound hsound rfl rfl rfl (Nat.le_refl _) rfl rfl
  settle hs htaken hfree hopens := hs.settle _ _ htaken hfree hopens
  fail e hs htaken := by
    have hsound := sound_stable.fail e hs.toSound htaken
    obtain ⟨document, hfail⟩ := fail_eq _ _ e
    rw [hfail] at hsound ⊢
    exact hs.of_sound hsound rfl rfl rfl (Nat.le_refl _) rfl rfl
  record island outcome hs :=
    hs.of_sound (hs.toSound.of_eq rfl rfl rfl) rfl rfl rfl (Nat.le_refl _) rfl rfl
  unmountOne r id hs := hs.unmountOne r id
  dropStores hs := hs.of_sound hs.toSound.dropStores rfl rfl rfl (Nat.le_refl _) rfl rfl

end Session

end Archipelago
