import Archipelago.Proofs.Session.Spares

/-!
# Ticks of islands

When the intervals of an island are due next. A rendering after which the same handlers of the
island are intervals leaves their times alone. After any other one all intervals of the island start
afresh, those included that have stayed where they are with the period that they had. So an interval
is put off by intervals beside it that come and go.
-/

namespace Archipelago

open Page (Handler)

/-- The interval that a timer runs time and again, with the time when it is due. -/
def Timer.tick? (t : Timer (String × Session.Job)) : Option (Nat × Nat) :=
  match t.period, t.payload.2 with
  | some _, .interval index => some (index, t.due)
  | _, _ => none

namespace Scheduler

/-- The intervals of an island with the times when they are due, in the order in which they were
scheduled. -/
def ticks (s : Scheduler (String × Session.Job)) (island : String) : List (Nat × Nat) :=
  (s.jobsOf island).filterMap Timer.tick?

/-- The times when the interval at one place is due. -/
def dues (s : Scheduler (String × Session.Job)) (island : String) (index : Nat) : List Nat :=
  ((s.ticks island).filter (·.1 = index)).map (·.2)

theorem ticks_of_jobsOf {s s' : Scheduler (String × Session.Job)} {island : String}
    (h : s'.jobsOf island = s.jobsOf island) : s'.ticks island = s.ticks island := by
  rw [ticks, h, ticks]

/-- Where the intervals are that the recurring timers of an island run. -/
theorem places_ticks (s : Scheduler (String × Session.Job)) (island : String) :
    (s.ticks island).map (·.1) = (s.ofIsland island).filterMap fun e =>
      match e.payload.2 with
      | .interval index => some index
      | .resume _ => none := by
  rw [ofIsland_eq, ticks, List.map_filterMap, List.filterMap_filterMap]
  refine List.filterMap_congr fun t _ => ?_
  unfold Timer.tick? Timer.recurring?
  cases t.period with
  | none => rfl
  | some period =>
    simp only [Option.map_some, Option.bind_some]
    cases t.payload.2 with
    | interval index => rfl
    | resume c => rfl

/-- There is one time for each of different intervals. -/
theorem dues_of_mem {s : Scheduler (String × Session.Job)} {island : String}
    (hn : ((s.ticks island).map (·.1)).Nodup) {index due : Nat}
    (h : (index, due) ∈ s.ticks island) : s.dues island index = [due] := by
  unfold dues
  generalize s.ticks island = ts at hn h
  induction ts with
  | nil => cases h
  | cons e ts ih =>
    obtain ⟨hnew, hn⟩ := List.nodup_cons.1 hn
    rcases List.mem_cons.1 h with rfl | h
    · have hrest : ts.filter (·.1 = index) = [] :=
        List.filter_eq_nil_iff.2 fun e he hi =>
          hnew (List.mem_map.2 ⟨e, he, of_decide_eq_true hi⟩)
      rw [List.filter_cons_of_pos (by simp), hrest]
      rfl
    · have hne : e.1 ≠ index := fun hi => hnew (List.mem_map.2 ⟨_, h, hi.symm⟩)
      rw [List.filter_cons_of_neg (by simpa using hne)]
      exact ih hn h

end Scheduler

namespace Session

/-! ## Places of intervals -/

theorem handlersOf_eq (kind : EventKind) (handlers : List Handler) :
    handlersOf kind handlers = (handlers.zipIdx.filter (·.1.kind = kind)).map (·.2) := by
  unfold handlersOf
  rw [← List.filterMap_eq_map, List.filterMap_filter]
  simp

theorem nodup_handlersOf (kind : EventKind) (handlers : List Handler) :
    (handlersOf kind handlers).Nodup := by
  rw [handlersOf_eq]
  refine List.Nodup.sublist (List.filter_sublist.map _) ?_
  rw [List.zipIdx_map_snd]
  exact List.nodup_range'

/-- Which handlers are intervals does not depend on the least period. -/
theorem places_intervals (least : Nat) (handlers : List Handler) :
    (intervals least handlers).map (·.1) = handlersOf .interval handlers := by
  unfold intervals handlersOf
  rw [List.map_filterMap]
  refine List.filterMap_congr fun x _ => ?_
  dsimp only
  split
  · rfl
  · rfl

/-! ## One island -/

/-- When intervals that are scheduled now are due for the first time. -/
def firstTicks (now : Nat) (ws : List (Nat × Nat)) : List (Nat × Nat) :=
  ws.map fun w => (w.1, laterBy now (max w.2 1))

theorem places_firstTicks (now : Nat) (ws : List (Nat × Nat)) :
    (firstTicks now ws).map (·.1) = ws.map (·.1) := by
  unfold firstTicks
  rw [List.map_map]
  rfl

/-- What becomes of the ticks of an island that has these intervals from now on. -/
def retimed (now : Nat) (ws ticks : List (Nat × Nat)) : List (Nat × Nat) :=
  if ws.map (·.1) = ticks.map (·.1) then ticks else firstTicks now ws

theorem places_retimed (now : Nat) (ws ticks : List (Nat × Nat)) :
    (retimed now ws ticks).map (·.1) = ws.map (·.1) := by
  unfold retimed
  split
  · rename_i h
    exact h.symm
  · exact places_firstTicks now ws

/-- To render an island twice in the same way is to render it once. -/
theorem retimed_retimed (now : Nat) (ws ticks : List (Nat × Nat)) :
    retimed now ws (retimed now ws ticks) = retimed now ws ticks :=
  if_pos (places_retimed now ws ticks).symm

theorem Mounted.Keeps.places_ticks {sch : Scheduler (String × Job)} {m : Mounted}
    {ws : List (Nat × Nat)} (h : m.Keeps sch ws) :
    (sch.ticks m.island.id).map (·.1) = ws.map (·.1) := by
  obtain ⟨first, hown, -⟩ := h
  rw [Scheduler.places_ticks, hown]
  clear hown
  induction ws generalizing first with
  | nil => rfl
  | cons w ws ih => exact congrArg (List.cons w.1) (ih (first + 1))

/-- A new timer comes behind the others, if it is live and for the island. -/
theorem ticks_add (sch : Scheduler (String × Job)) (due : Nat) (period : Option Nat) (token : Token)
    (payload : String × Job) (island : String) :
    (sch.add due period token payload).1.ticks island = sch.ticks island ++
      (([⟨sch.nextId, due, period, token, payload⟩].filter sch.isLive).filter
        (·.payload.1 = island)).filterMap Timer.tick? := by
  unfold Scheduler.ticks Scheduler.jobsOf
  rw [Scheduler.live_add, List.filter_append, List.filterMap_append]

theorem ticks_schedule {token : Token} (island : String) (ws : List (Nat × Nat))
    {sch : Scheduler (String × Job)} (ht : token ∉ sch.cancelled) :
    (schedule token island ws sch).1.ticks island =
      sch.ticks island ++ firstTicks sch.now ws := by
  induction ws generalizing sch with
  | nil => exact (List.append_nil _).symm
  | cons w ws ih =>
    have hlive : ∀ t : Timer (String × Job), t.token = token → sch.isLive t = true := by
      rintro t rfl
      simpa [Scheduler.isLive] using ht
    have hnew : (sch.every w.2 token (island, .interval w.1)).1.ticks island =
        sch.ticks island ++ [(w.1, laterBy sch.now (max w.2 1))] := by
      refine (ticks_add sch _ _ token _ island).trans ?_
      rw [List.filter_singleton, hlive _ rfl]
      simp [Timer.tick?]
    calc (schedule token island (w :: ws) sch).1.ticks island
      _ = (sch.every w.2 token (island, .interval w.1)).1.ticks island ++ firstTicks sch.now ws :=
        ih ht
      _ = sch.ticks island ++ firstTicks sch.now (w :: ws) := by
        rw [hnew, List.append_assoc]
        rfl

/-- Nothing is due any more of an island whose timers are cancelled. -/
theorem ticks_cancelAll {sch : Scheduler (String × Job)} {m : Mounted} {ws : List (Nat × Nat)}
    (h : m.Keeps sch ws) : (cancelAll sch (m.timers.map (·.2))).ticks m.island.id = [] := by
  unfold Scheduler.ticks Scheduler.jobsOf
  rw [live_cancelAll, ← h.ids, Scheduler.ofIsland_eq]
  refine List.filterMap_eq_nil_iff.2 fun t ht => ?_
  obtain ⟨ht, hisland⟩ := List.mem_filter.1 ht
  obtain ⟨ht, hother⟩ := List.mem_filter.1 ht
  cases hperiod : t.period with
  | none => simp [Timer.tick?, hperiod]
  | some period =>
    have hrecurring : t.recurring? = some ⟨t.id, period, t.token, t.payload⟩ :=
      congrArg (Option.map _) hperiod
    have hown : t ∈ sch.jobsOf m.island.id := List.mem_filter.2 ⟨ht, hisland⟩
    have hmem := List.mem_filterMap.2 ⟨t, hown, hrecurring⟩
    exact absurd (List.mem_map.2 ⟨_, hmem, rfl⟩) (of_decide_eq_true hother)

theorem ticks_syncTimers (least : Nat) {sch : Scheduler (String × Job)} {m : Mounted}
    {ws : List (Nat × Nat)} (ht : m.token ∉ sch.cancelled) (h : m.Keeps sch ws) :
    (syncTimers least sch m).1.ticks m.island.id =
      retimed sch.now (intervals least m.handlers) (sch.ticks m.island.id) := by
  unfold syncTimers retimed
  dsimp only
  rw [h.places.trans h.places_ticks.symm]
  split
  · rfl
  · obtain ⟨-, hcancelled, -⟩ := cancelAll_eq sch (m.timers.map (·.2))
    dsimp only
    rw [ticks_schedule _ _ (hcancelled ▸ ht), ticks_cancelAll h, List.nil_append,
      (cancelAll_resets sch _).now]

/-! ## Events -/

namespace Owned

variable {s : Session} (h : s.Owned)
include h

/-- The ticks of an island are those of the handlers that are intervals. -/
theorem places_ticks {id : String} {m : Mounted} (hm : Dict.get? s.mounted id = some m) :
    (s.scheduler.ticks id).map (·.1) = handlersOf .interval m.handlers := by
  obtain ⟨shown, hruns⟩ := h.runs id m hm
  rw [← places_intervals s.config.hydration.minIntervalMs, ← hruns.places,
    ← hruns.keeps.places_ticks, h.named id m hm]

theorem ticks_rerender (store : Store) {m : Mounted}
    (hm : Dict.get? s.mounted m.island.id = some m) :
    (s.rerender store m).scheduler.ticks m.island.id =
        retimed s.now (intervals s.config.hydration.minIntervalMs
          (s.renderer.renderIsland store.toScope m.island).handlers)
          (s.scheduler.ticks m.island.id) ∧
      ∀ other, other ≠ m.island.id →
        (s.rerender store m).scheduler.ticks other = s.scheduler.ticks other := by
  obtain ⟨shown, hruns⟩ := h.runs _ m hm
  refine ⟨?_, fun other hne => ?_⟩
  · exact ticks_syncTimers (m := { m with
      handlers := (s.renderer.renderIsland store.toScope m.island).handlers }) _
      (h.live _ m hm).1 hruns.keeps
  · exact Scheduler.ticks_of_jobsOf ((h.tended_rerender store hm).others other hne)

end Owned

/-- No time has passed, and the ticks of each island have become those of its handlers. -/
structure Retimes (s s' : Session) : Prop where
  now : s'.now = s.now
  config : s'.config = s.config
  ticks : ∀ id m, Dict.get? s'.mounted id = some m → s'.scheduler.ticks id =
    retimed s.now (intervals s.config.hydration.minIntervalMs m.handlers) (s.scheduler.ticks id)

/-- Islands of the session are being rendered anew from the store: each of them is as it was before,
or shows its rendering and ticks for it. -/
structure Refreshing (s : Session) (store : Store) (s' : Session) : Prop extends Owned s' where
  now : s'.now = s.now
  config : s'.config = s.config
  islands : ∀ id m, Dict.get? s'.mounted id = some m →
    Dict.get? s.mounted id = some m ∧ s'.scheduler.ticks id = s.scheduler.ticks id ∨
      m.handlers = (s.renderer.renderIsland store.toScope m.island).handlers ∧
        s'.scheduler.ticks id = retimed s.now
          (intervals s.config.hydration.minIntervalMs m.handlers) (s.scheduler.ticks id)

namespace Refreshing

variable {s s' : Session} {store : Store}

theorem refl (h : s.Owned) (store : Store) : Refreshing s store s :=
  ⟨h, rfl, rfl, fun _ _ hm => .inl ⟨hm, rfl⟩⟩

theorem rerender (h : Refreshing s store s') {m : Mounted}
    (hm : Dict.get? s'.mounted m.island.id = some m) (ht : m.template ≠ none) :
    Refreshing s store (s'.rerender store m) := by
  obtain ⟨hown, hothers⟩ := h.ticks_rerender store hm
  obtain ⟨timers, hmounted, -, -, hconfig⟩ := rerender_eq s' store m
  have hrenderer : s'.renderer = s.renderer := congrArg Page.Renderer.ofConfig h.config
  refine ⟨h.toOwned.rerender store hm ht, ?_, hconfig.trans h.config, fun id x hx => ?_⟩
  · exact (syncTimers_resets _ _ _).now.trans h.now
  rw [hmounted, Dict.get?_insert] at hx
  split at hx
  · rename_i he
    obtain rfl := Option.some.inj hx
    subst he
    refine .inr ⟨by rw [hrenderer], ?_⟩
    rw [hown, h.now, h.config]
    rcases h.islands _ m hm with ⟨-, hticks⟩ | ⟨hdrawn, hticks⟩
    · rw [hticks]
    · rw [hticks, hdrawn, hrenderer]
      exact retimed_retimed _ _ _
  · rename_i hne
    rw [hothers id (Ne.symm hne)]
    exact h.islands id x hx

end Refreshing

namespace Retimes

variable {s s' : Session}

theorem refl (h : s.Owned) : Retimes s s := by
  refine ⟨rfl, rfl, fun id m hm => (if_pos ?_).symm⟩
  rw [places_intervals, h.places_ticks hm]

theorem refresh (h : s.Owned) (template : String) (store : Store) (names : List String) :
    Retimes s (s.refresh template store names).1 := by
  have hall : Refreshing s store (s.refresh template store names).1 :=
    h.refresh_rec (.refl h store) template store names fun _ _ hs hm ht =>
      hs.rerender hm (ht ▸ Option.some_ne_none _)
  refine ⟨hall.now, hall.config, fun id m hm => ?_⟩
  rcases hall.islands id m hm with ⟨hold, hticks⟩ | ⟨-, hticks⟩
  · exact hticks.trans ((refl h).ticks id m hold)
  · exact hticks

/-- A suspended sequence is no tick. -/
theorem suspend (h : Retimes s s') (m : Mounted) (pending : List Continuation) :
    Retimes s (s'.suspend m pending) := by
  have hkept : (s'.suspend m pending).now = s'.now ∧
      ∀ id, (s'.suspend m pending).scheduler.ticks id = s'.scheduler.ticks id := by
    refine List.foldlRecOn pending _ (motive := fun sch : Scheduler _ => sch.now = s'.now ∧
      ∀ id, sch.ticks id = s'.scheduler.ticks id) ⟨rfl, fun _ => rfl⟩ ?_
    rintro sch ⟨hnow, hticks⟩ c -
    refine ⟨hnow, fun id => (ticks_add sch _ none _ _ id).trans ?_⟩
    rw [hticks, List.filterMap_eq_nil_iff.2, List.append_nil]
    intro t ht
    obtain ⟨ht, -⟩ := List.mem_filter.1 ht
    rw [List.mem_singleton.1 (List.mem_filter.1 ht).1]
    rfl
  exact ⟨hkept.1.trans h.now, h.config, fun id x hx => (hkept.2 id).trans (h.ticks id x hx)⟩

theorem fire (h : s.Owned) (island : String) {run : Trace → Outcome} (hrun : ByBatches run) :
    Retimes s (s.fire island run).1 := by
  rcases fire_cases s island hrun with he | ⟨m, template, store, u, storage, pending, hm, ht,
    hstore, hreach, he⟩
  · rw [he]
    exact refl h
  · have hheard : u.store.Heard := (h.heard template store hstore).of_frame hreach.frame.symm
    have htimed := h.toTimed.of_sound (h.toSound.store template hheard storage) rfl rfl rfl
      (Nat.le_refl _) rfl rfl
    obtain ⟨hnow, hconfig, hticks⟩ := (refresh (h.of_eq htimed rfl rfl) template u.store
      (u.notices.map (·.name))).suspend m pending
    rw [he]
    exact ⟨hnow, hconfig, hticks⟩

end Retimes

theorem Fires.retimes {s s' : Session} {island : String} (h : s.Fires island s') (ho : s.Owned) :
    Retimes s s' := by
  rcases h with rfl | ⟨run, hrun, rfl⟩
  · exact .refl ho
  · exact .fire ho island hrun

/-! ## Runs -/

/-- The sessions that come up in the course of calls and jobs, those halfway through one included:
whatever every step keeps holds of them. -/
def Arises (start s : Session) : Prop := ∀ P, Stable P → P start → P s

theorem Reached.arises {start s : Session} (h : Reached start s) : start.Arises s :=
  fun _ hP hstart => h.holds hP hstart

/-- A timer has been popped, and its job is not done yet. -/
theorem Arises.pop {start s : Session} (h : start.Arises s) (time : Nat) :
    start.Arises { s with scheduler := (s.scheduler.pop time).1 } :=
  fun P hP hstart => hP.pop time (h P hP hstart)

/-- An interval that is one before and after an event is due once, before and after. The event
leaves the time alone if the same handlers are intervals; else it is one period from now, even where
the handler and its period are what they were. -/
theorem due_of_fires {start s s' : Session} (hstart : start.Unhydrated)
    (hsch : start.scheduler = {}) (h : start.Arises s) {source : String}
    (hfires : s.Fires source s') {id : String} {m m' : Mounted}
    (hm : Dict.get? s.mounted id = some m)
    (hm' : Dict.get? s'.mounted id = some m') {index period : Nat}
    (hbefore : (index, period) ∈ intervals s.config.hydration.minIntervalMs m.handlers)
    (hafter : (index, period) ∈ intervals s.config.hydration.minIntervalMs m'.handlers) :
    ∃ due due', s.scheduler.dues id index = [due] ∧ s'.scheduler.dues id index = [due'] ∧
      (due' = if handlersOf .interval m'.handlers = handlersOf .interval m.handlers then due
        else laterBy s.now (max period 1)) ∧
      (due' = due ↔ handlersOf .interval m'.handlers = handlersOf .interval m.handlers ∨
        due = laterBy s.now (max period 1)) := by
  have ho := h Owned owned_stable (hstart.owned hsch)
  have hplaces := ho.places_ticks hm
  have hticks := (hfires.retimes ho).ticks id m' hm'
  have hnodup : ((s.scheduler.ticks id).map (·.1)).Nodup := hplaces ▸ nodup_handlersOf _ _
  have hnodup' : ((s'.scheduler.ticks id).map (·.1)).Nodup := by
    rw [hticks, places_retimed, places_intervals]
    exact nodup_handlersOf _ _
  have hindex : index ∈ (s.scheduler.ticks id).map (·.1) := by
    rw [hplaces, ← places_intervals s.config.hydration.minIntervalMs]
    exact List.mem_map_of_mem hbefore
  obtain ⟨⟨i, due⟩, hdue, hi⟩ := List.mem_map.1 hindex
  obtain rfl : index = i := hi.symm
  rw [retimed, places_intervals, hplaces] at hticks
  by_cases hsame : handlersOf .interval m'.handlers = handlersOf .interval m.handlers
  · rw [if_pos hsame] at hticks
    refine ⟨due, due, Scheduler.dues_of_mem hnodup hdue, ?_, (if_pos hsame).symm, ?_⟩
    · exact Scheduler.dues_of_mem hnodup' (hticks ▸ hdue)
    · exact iff_of_true rfl (.inl hsame)
  · rw [if_neg hsame] at hticks
    have hnew : (index, laterBy s.now (max period 1)) ∈ s'.scheduler.ticks id :=
      hticks ▸ List.mem_map_of_mem hafter
    refine ⟨due, _, Scheduler.dues_of_mem hnodup hdue, Scheduler.dues_of_mem hnodup' hnew,
      (if_neg hsame).symm, ?_⟩
    rw [or_iff_right hsame]
    exact eq_comm

/-- The island of the template takes its place. -/
def enter (t : Template) : Call :=
  .hydrate "root" {} (t.islands.map fun i => { i with id := "i", templateId := "t" }) "12:00"

theorem reached_run (start : Session) (calls : List Call) : Reached start (start.run calls) :=
  List.foldlRecOn calls _ (motive := Reached start) .start fun _ h c _ => .call c h

/-- The first tick makes one branch give way to the other, which has an interval of the same period
in the same place. So this goes on with the next tick of the one before. -/
theorem due_pulse :
    ∃ t timer m m' due, (compile {} (pulseMarkup "900")).template? = some t ∧
      (((staged t).run [enter t]).scheduler.pop 900).2 = some timer ∧
      Dict.get? ((staged t).run [enter t]).mounted "i" = some m ∧
      Dict.get? (((staged t).run [enter t]).popped (((staged t).run [enter t]).scheduler.pop 900).1
        timer).1.mounted "i" = some m' ∧
      m'.handlers.map (·.actions.length) ≠ m.handlers.map (·.actions.length) ∧
      (0, 900) ∈ intervals 100 m.handlers ∧ (0, 900) ∈ intervals 100 m'.handlers ∧
      (((staged t).run [enter t]).scheduler.pop 900).1.dues "i" 0 = [due] ∧
      (((staged t).run [enter t]).popped (((staged t).run [enter t]).scheduler.pop 900).1
        timer).1.scheduler.dues "i" 0 = [due] := by
  have ht : ((compile {} (pulseMarkup "900")).template?.bind fun t =>
      (((staged t).run [enter t]).scheduler.pop 900).2.bind fun timer =>
        (Dict.get? ((staged t).run [enter t]).mounted "i").bind fun m =>
          (Dict.get? (((staged t).run [enter t]).popped
            (((staged t).run [enter t]).scheduler.pop 900).1 timer).1.mounted "i").map fun m' =>
              decide (m'.handlers.map (·.actions.length) ≠ m.handlers.map (·.actions.length) ∧
                ((staged t).run [enter t]).config.hydration.minIntervalMs = 100 ∧
                (0, 900) ∈ intervals 100 m.handlers ∧ (0, 900) ∈ intervals 100 m'.handlers ∧
                handlersOf .interval m'.handlers = handlersOf .interval m.handlers)) =
      some true := by
    decide +kernel
  obtain ⟨t, htemplate, ht⟩ := Option.bind_eq_some_iff.1 ht
  obtain ⟨timer, htimer, ht⟩ := Option.bind_eq_some_iff.1 ht
  obtain ⟨m, hm, ht⟩ := Option.bind_eq_some_iff.1 ht
  obtain ⟨m', hm', hdue⟩ := Option.map_eq_some_iff.1 ht
  obtain ⟨hnew, hleast, hbefore, hafter, hsame⟩ := of_decide_eq_true hdue
  obtain ⟨hs, -, hsch⟩ := staged_unhydrated t
  have harises := (reached_run (staged t) [enter t]).arises.pop 900
  obtain ⟨due, due', hdue, hdue', hkept, -⟩ := due_of_fires hs hsch harises
    (fires_runJob _ timer.payload.1 timer.payload.2) hm hm' (hleast.symm ▸ hbefore)
    (hleast.symm ▸ hafter)
  rw [if_pos hsame] at hkept
  exact ⟨t, timer, m, m', due, htemplate, htimer, hm, hm', hnew, hbefore, hafter, hdue,
    hkept ▸ hdue'⟩

/-! ## Intervals that are put off -/

/-- The session some time later, if nothing is due until then. -/
def idleFor (s : Session) (ms : Nat) : Session :=
  { s with
    scheduler := (s.scheduler.pop (laterBy s.now ms)).1.advanceTo (laterBy s.now ms) }

theorem advance_of_idle {s : Session} {ms : Nat}
    (h : (s.scheduler.pop (laterBy s.now ms)).2.isNone = true) :
    s.call (.advance ms) = s.idleFor ms := by
  cases hpop : s.scheduler.pop (laterBy s.now ms) with
  | mk sch next =>
    rw [hpop] at h
    obtain rfl := Option.isNone_iff_eq_none.1 h
    show (s.advance ms).1 = _
    unfold advance idleFor
    dsimp only
    rw [runDue_none hpop, hpop]

/-- A button with an interval, and with a second one while it is switched on. -/
def blinkMarkup : String :=
  "<Var name=\"a\" type=\"boolean\"/><Button><OnClick><Toggle var=\"a\"/></OnClick>"
    ++ "<OnInterval interval=\"900\"/><If var=\"a\"><OnInterval interval=\"500\"/></If></Button>"

/-- The first interval of the button is 600 ms on its way as the button is switched on. It has the
same place and the same period as before, and starts afresh. -/
theorem due_put_off :
    ∃ t m m', (compile {} blinkMarkup).template? = some t ∧
      (staged t).Unhydrated ∧ (staged t).scheduler = {} ∧
      Reached (staged t) ((staged t).run [enter t, .advance 600]) ∧
      Dict.get? ((staged t).run [enter t, .advance 600]).mounted "i" = some m ∧
      Dict.get? (((staged t).run [enter t, .advance 600]).dispatch "i" .click 0).1.mounted "i" =
        some m' ∧
      (1, 900) ∈ intervals 100 m.handlers ∧ (1, 900) ∈ intervals 100 m'.handlers ∧
      ((staged t).run [enter t, .advance 600]).scheduler.dues "i" 1 = [900] ∧
      (((staged t).run [enter t, .advance 600]).dispatch "i" .click 0).1.scheduler.dues "i" 1 =
        [1500] := by
  have ht : ((compile {} blinkMarkup).template?.bind fun t =>
      (Dict.get? (((staged t).run [enter t]).idleFor 600).mounted "i").bind fun m =>
        (Dict.get? ((((staged t).run [enter t]).idleFor 600).dispatch "i" .click 0).1.mounted
          "i").map fun m' => decide (
            (((staged t).run [enter t]).scheduler.pop
              (laterBy ((staged t).run [enter t]).now 600)).2.isNone = true ∧
            (1, 900) ∈ intervals 100 m.handlers ∧ (1, 900) ∈ intervals 100 m'.handlers ∧
            (((staged t).run [enter t]).idleFor 600).scheduler.dues "i" 1 = [900] ∧
            ((((staged t).run [enter t]).idleFor 600).dispatch "i" .click 0).1.scheduler.dues "i"
              1 = [1500])) = some true := by
    decide +kernel
  obtain ⟨t, htemplate, ht⟩ := Option.bind_eq_some_iff.1 ht
  obtain ⟨m, hm, ht⟩ := Option.bind_eq_some_iff.1 ht
  obtain ⟨m', hm', hdues⟩ := Option.map_eq_some_iff.1 ht
  obtain ⟨hidle, hdues⟩ := of_decide_eq_true hdues
  have hrun : (staged t).run [enter t, .advance 600] = ((staged t).run [enter t]).idleFor 600 :=
    advance_of_idle hidle
  obtain ⟨hs, -, hsch⟩ := staged_unhydrated t
  refine ⟨t, m, m', htemplate, hs, hsch, reached_run _ _, ?_⟩
  rw [hrun]
  exact ⟨hm, hm', hdues⟩

end Session

end Archipelago
