import Archipelago.Proofs.Session.Mounts
import Mathlib.Data.List.DropRight

/-!
# Renderings that are counted

The record of an island counts how often the island has been rendered anew. It is written when an
attempt at the island is over, and it counts from then on. So it leaves out what the island's own
mount handlers have rendered by then; and it starts again with any other attempt at the name, which
fails as long as the island is mounted. All else is counted, whatever is called.

For this, notes are taken beside the calls, which know nothing of them: that an island has come in,
that one is rendered anew, that an attempt at one has been recorded. What an event runs, if there is
one, is told apart from what that makes of the session.
-/

namespace Archipelago

open Hydration (MountedComponent State)
open Page (Handler)

/-- Nothing in the tree of the island handles its mount. -/
def Island.Quiet (i : Island) : Prop :=
  ∀ n ∈ i.node.walk, ∀ b ∈ n.bindings, b.kind ≠ .mount

instance : DecidablePred Island.Quiet := fun i => by
  unfold Island.Quiet
  infer_instance

namespace Session

/-! ## Notes -/

/-- What there is to say of an island while a session goes on. -/
inductive Note where
  /-- The island comes into its place. -/
  | entered (island : String)
  /-- A refresh renders it anew. -/
  | rendered (island : String)
  /-- An attempt at it is over, and recorded. -/
  | recorded (island : String)
deriving DecidableEq, Repr

namespace Note

variable {mark x y : Note} {island : String} {notes more : List Note}

/-- How often there is a note behind the last mark. -/
def since (mark x : Note) (notes : List Note) : Nat :=
  notes.foldl (fun n y => if y = mark then 0 else if y = x then n + 1 else n) 0

/-- How a count goes on with one more note. -/
theorem since_concat (mark x : Note) (notes : List Note) (y : Note) :
    since mark x (notes ++ [y]) =
      if y = mark then 0 else if y = x then since mark x notes + 1 else since mark x notes :=
  List.foldl_append

theorem since_append (hmark : mark ∉ more) (hx : x ∉ more) :
    since mark x (notes ++ more) = since mark x notes := by
  induction more generalizing notes with
  | nil => rw [List.append_nil]
  | cons y more ih =>
    obtain ⟨hmark, hmore⟩ := not_or.1 (mt List.mem_cons.2 hmark)
    obtain ⟨hx, hmore'⟩ := not_or.1 (mt List.mem_cons.2 hx)
    rw [List.append_cons, ih hmore hmore', since_concat, if_neg (Ne.symm hmark),
      if_neg (Ne.symm hx)]

/-- Something is counted only if it has been noted. -/
theorem mem_of_since (h : since mark x notes ≠ 0) : x ∈ notes := by
  induction notes using List.reverseRecOn with
  | nil => exact absurd rfl h
  | append_singleton notes y ih =>
    rw [since_concat] at h
    split at h
    · exact absurd rfl h
    · split at h
      · rename_i he
        exact List.mem_append_right _ (List.mem_singleton.2 he.symm)
      · exact List.mem_append_left _ (ih h)

/-- The renderings behind the entrance of an island that its latest record came too late for. -/
def uncounted (island : String) (notes : List Note) : Nat :=
  since (.entered island) (.rendered island) (notes.rdropWhile (· ≠ .recorded island))

/-- When the record of an island is written, what has been rendered of it since it came in is not
counted. -/
theorem uncounted_recorded (island : String) (notes : List Note) :
    uncounted island (notes ++ [.recorded island]) =
      since (.entered island) (.rendered island) notes := by
  rw [uncounted, List.rdropWhile_concat_neg _ _ _ (by simp), since_concat, if_neg Note.noConfusion,
    if_neg Note.noConfusion]

theorem uncounted_append (h : .recorded island ∉ more) :
    uncounted island (notes ++ more) = uncounted island notes := by
  induction more generalizing notes with
  | nil => rw [List.append_nil]
  | cons y more ih =>
    obtain ⟨hy, hmore⟩ := not_or.1 (mt List.mem_cons.2 h)
    rw [List.append_cons, ih hmore, uncounted, uncounted,
      List.rdropWhile_concat_pos (· ≠ .recorded island) notes y (decide_eq_true (Ne.symm hy))]

/-- Of the renderings behind the entrance, those are not counted that a record came too late for. -/
def Balanced (island : String) (notes : List Note) : Prop :=
  since (.entered island) (.rendered island) notes =
    since (.recorded island) (.rendered island) notes + uncounted island notes

/-- A record is right when it is written. -/
theorem balanced_recorded (island : String) (notes : List Note) :
    Balanced island (notes ++ [.recorded island]) := by
  rw [Balanced, uncounted_recorded, since_concat, since_concat, if_neg Note.noConfusion,
    if_neg Note.noConfusion, if_pos rfl, Nat.zero_add]

/-- Only an entrance is out of balance, until it has been recorded. -/
theorem Balanced.append (h : Balanced island notes) (hmore : .entered island ∉ more) :
    Balanced island (notes ++ more) := by
  induction more generalizing notes with
  | nil => rwa [List.append_nil]
  | cons y more ih =>
    obtain ⟨hy, hmore⟩ := not_or.1 (mt List.mem_cons.2 hmore)
    rw [List.append_cons]
    refine ih ?_ hmore
    by_cases hrecorded : y = .recorded island
    · rw [hrecorded]
      exact balanced_recorded island notes
    · rw [Balanced, uncounted_append (by simpa using Ne.symm hrecorded), since_concat, since_concat,
        if_neg (Ne.symm hy), if_neg hrecorded]
      unfold Balanced at h
      split
      · omega
      · exact h

end Note

/-! ## What is noted -/

/-- The islands that an event of an island renders anew. -/
def fireNotes (s : Session) (island : String) (run : Trace → Outcome) : List Note :=
  match (Dict.get? s.mounted island).bind fun m => m.template with
  | none => []
  | some template =>
    match Dict.get? s.stores template with
    | none => []
    | some store =>
      let t := lastTrace Prod.fst (run { store })
      (s.refresh template t.store (t.notices.map (·.name))).2.map .rendered

/-- The notes on an event, if there is one. -/
def eventNotes (s : Session) (island : String) (run? : Option (Trace → Outcome)) : List Note :=
  run?.elim [] (s.fireNotes island)

/-- What an event makes of a session, if there is one. -/
def after (s : Session) (island : String) (run? : Option (Trace → Outcome)) : Session :=
  run?.elim s fun run => (s.fire island run).1

/-- What is run when a handler is fired that belongs to no field. -/
def dispatched? (s : Session) (island : String) (kind : EventKind) (index : Nat) :
    Option (Trace → Outcome) :=
  (Dict.get? s.mounted island).bind fun m =>
    (handler? m index fun h => h.kind = kind && h.input.isNone).map fun h =>
      Action.run h.locals h.actions

/-- What is run when a field has a new value. -/
def changed? (s : Session) (island : String) (index : Nat) (value : Value) :
    Option (Trace → Outcome) :=
  (Dict.get? s.mounted island).bind fun m =>
    (handler? m index fun h => h.kind = .change).bind fun h => h.input.map fun b => fun t => do
      Action.run h.locals h.actions (← writeField b.var (fieldValue b value) t)

/-- What is run when a job is due. -/
def worked? (s : Session) (island : String) : Job → Option (Trace → Outcome)
  | .interval index =>
    ((Dict.get? s.mounted island).bind fun m => handler? m index fun h => h.kind = .interval).map
      fun h => Action.run h.locals h.actions
  | .resume c => if Dict.contains s.mounted island then some c.resume else none

/-- The notes on mount handlers that are fired. -/
def mountNotes (s : Session) (island : String) : List Nat → List Note
  | [] => []
  | i :: places =>
    s.eventNotes island (s.dispatched? island .mount i) ++
      (s.dispatch island .mount i).1.mountNotes island places

/-- The notes on a placeholder that a pass comes to. -/
def attemptNotes (p : Pass) (s : Session) (n : NodeId) : List Note :=
  match (s.document.attr? n Page.islandAttr).bind (Dict.get? p.islands) with
  | none => []
  | some island =>
    if (State.ofAttr (s.document.attr? n Hydration.stateAttr)).isFree then
      let entrance : List Note :=
        match ((s.claim n).mount p island n).2, (s.claim n).entered? p island n with
        | .ok (), some (fresh, o) =>
          .entered island.id :: fresh.mountNotes island.id (handlersOf .mount o.handlers)
        | _, _ => []
      entrance ++ [.recorded island.id]
    else []

/-- The notes on a pass over placeholders. -/
def passNotes (p : Pass) : List NodeId → Session → HydrationResult → List Note
  | [], _, _ => []
  | n :: ns, s, r =>
    attemptNotes p s n ++ passNotes p ns (hydrateOne p s r n).1 (hydrateOne p s r n).2

/-- The notes on what is due up to a time. -/
def dueNotes (time : Nat) (s : Session) : List Note :=
  match s.scheduler.pop time with
  | (_, none) => []
  | (scheduler, some timer) =>
    let popped : Session := { s with scheduler }
    let next := (popped.runJob timer.payload.1 timer.payload.2).1
    popped.eventNotes timer.payload.1 (popped.worked? timer.payload.1 timer.payload.2) ++
      if _h : (backlog time next).less (backlog time s) then dueNotes time next else []
termination_by (backlog time s).toPair
decreasing_by exact Backlog.less.lex _h

/-- The notes on a call. To load a template or to take islands off renders nothing. -/
def callNotes (s : Session) : Call → List Note
  | .load _ _ | .cleanup | .cleanupIn _ => []
  | .hydrate containerId resident islands time =>
    match s.document.byId? containerId with
    | none => []
    | some container =>
      passNotes ⟨container, resident, Dict.ofList (islands.map fun i => (i.id, i)), time⟩
        (s.document.placeholders container) s {}
  | .dispatch island kind index => s.eventNotes island (s.dispatched? island kind index)
  | .change island index value => s.eventNotes island (s.changed? island index value)
  | .advance ms => dueNotes (laterBy s.now ms) s

/-- The notes on a run of calls, first to last. -/
def notes (s : Session) : List Call → List Note
  | [] => []
  | c :: calls => s.callNotes c ++ (s.call c).notes calls

/-! ## What is run -/

/-- An event runs what it dispatches, and the islands that read what has changed are rendered. -/
theorem dispatch_eq (s : Session) (island : String) (kind : EventKind) (index : Nat) :
    (s.dispatch island kind index).1 = s.after island (s.dispatched? island kind index) := by
  unfold dispatch dispatched?
  cases Dict.get? s.mounted island with
  | none => rfl
  | some m =>
    dsimp only [Option.bind_some]
    cases handler? m index fun h => h.kind = kind && h.input.isNone with
    | none => rfl
    | some h => rfl

/-- A change of a field is an event that writes its variable. -/
theorem change_eq (s : Session) (island : String) (index : Nat) (value : Value) :
    (s.change island index value).1 = s.after island (s.changed? island index value) := by
  unfold change changed?
  cases Dict.get? s.mounted island with
  | none => rfl
  | some m =>
    dsimp only [Option.bind_some]
    cases handler? m index fun h => h.kind = .change with
    | none => rfl
    | some h =>
      obtain ⟨kind, intervalMs, actions, input, locals⟩ := h
      cases input with
      | none => rfl
      | some b => rfl

/-- A job is an event as well. -/
theorem runJob_eq (s : Session) (island : String) (job : Job) :
    (s.runJob island job).1 = s.after island (s.worked? island job) := by
  cases job with
  | interval index =>
    show (s.tick island index).1 = _
    unfold tick worked?
    dsimp only
    cases (Dict.get? s.mounted island).bind fun m =>
      handler? m index fun h => h.kind = .interval with
    | none => rfl
    | some h => rfl
  | resume c =>
    unfold runJob worked?
    dsimp only
    split
    · rfl
    · rfl

theorem dispatched?_byBatches (s : Session) (island : String) (kind : EventKind) (index : Nat) :
    ∀ run ∈ s.dispatched? island kind index, ByBatches run := by
  intro run hrun
  obtain ⟨m, -, hrun⟩ := Option.bind_eq_some_iff.1 hrun
  obtain ⟨h, -, rfl⟩ := Option.map_eq_some_iff.1 hrun
  exact run_byBatches _ _

theorem changed?_byBatches (s : Session) (island : String) (index : Nat) (value : Value) :
    ∀ run ∈ s.changed? island index value, ByBatches run := by
  intro run hrun
  obtain ⟨m, -, hrun⟩ := Option.bind_eq_some_iff.1 hrun
  obtain ⟨h, -, hrun⟩ := Option.bind_eq_some_iff.1 hrun
  obtain ⟨b, -, rfl⟩ := Option.map_eq_some_iff.1 hrun
  exact field_byBatches _ _ _ _

theorem worked?_byBatches (s : Session) (island : String) (job : Job) :
    ∀ run ∈ s.worked? island job, ByBatches run := by
  intro run hrun
  cases job with
  | interval index =>
    obtain ⟨h, -, rfl⟩ := Option.map_eq_some_iff.1 hrun
    exact run_byBatches _ _
  | resume c =>
    replace hrun : (if Dict.contains s.mounted island then some c.resume else none) = some run :=
      hrun
    split at hrun
    · obtain rfl := Option.some.inj hrun
      exact resume_byBatches c
    · cases hrun

/-- All that is noted of an event is that islands are rendered. -/
theorem rendered_of_mem_eventNotes {s : Session} {island : String}
    {run? : Option (Trace → Outcome)} {y : Note} (h : y ∈ s.eventNotes island run?) :
    ∃ id, y = .rendered id := by
  cases run? with
  | none => cases h
  | some run =>
    replace h : y ∈ s.fireNotes island run := h
    unfold fireNotes at h
    split at h
    · cases h
    · split at h
      · cases h
      · obtain ⟨id, -, rfl⟩ := List.mem_map.1 h
        exact ⟨id, rfl⟩

/-! ## Records -/

variable {s s' : Session} {notes more : List Note}

/-- The record of an island that has been attempted says how often it has been rendered since. -/
def Counts (s : Session) (notes : List Note) : Prop :=
  ∀ id, .recorded id ∈ notes → ∃ x, Dict.get? s.metrics id = some x ∧
    x.renders = Note.since (.recorded id) (.rendered id) notes

theorem Counts.append (h : s.Counts notes) (hmetrics : s'.metrics = s.metrics)
    (hrendered : ∀ id, .rendered id ∉ more) (hrecorded : ∀ id, .recorded id ∉ more) :
    s'.Counts (notes ++ more) := by
  intro id hid
  obtain ⟨x, hx, hcount⟩ := h id ((List.mem_append.1 hid).resolve_right (hrecorded id))
  exact ⟨x, hmetrics ▸ hx, hcount.trans (Note.since_append (hrecorded id) (hrendered id)).symm⟩

/-- A record that is there counts the rendering. -/
theorem Counts.rerender (h : s.Counts notes) (store : Store) (m : Mounted) :
    (s.rerender store m).Counts (notes ++ [.rendered m.island.id]) := by
  obtain ⟨scheduler, timers, ht⟩ := syncTimers_mounted s.config.hydration.minIntervalMs s.scheduler
    { m with handlers := (s.renderer.renderIsland store.toScope m.island).handlers }
  intro id hid
  obtain ⟨x, hx, hcount⟩ := h id ((List.mem_append.1 hid).resolve_right (by simp))
  rw [Note.since_concat, if_neg Note.noConfusion]
  simp only [Session.rerender, ht]
  by_cases he : m.island.id = id
  · rw [he, hx, if_pos rfl, ← hcount]
    exact ⟨_, Dict.get?_insert_self _ _ _, rfl⟩
  · rw [if_neg (by simpa using he), ← hcount]
    refine ⟨x, ?_, rfl⟩
    split
    · rw [Dict.get?_insert, if_neg he, hx]
    · exact hx

/-- Each rendering of a refresh is counted. -/
theorem Counts.rerenderAll (store : Store) (ms : List Mounted) (h : s.Counts notes) :
    (ms.foldl (fun s m => s.rerender store m) s).Counts
      (notes ++ ms.map fun m => .rendered m.island.id) := by
  induction ms generalizing s notes with
  | nil => rwa [List.map_nil, List.append_nil]
  | cons m ms ih =>
    rw [List.map_cons, List.append_cons]
    exact ih (h.rerender store m)

/-- An event that does anything at all refreshes the page, and the record of each island that is
rendered counts it. -/
theorem Counts.fire (h : s.Counts notes) (island : String) (run : Trace → Outcome) :
    (s.fire island run).1.Counts (notes ++ s.fireNotes island run) := by
  have hnone : s.Counts (notes ++ []) := (List.append_nil notes).symm ▸ h
  have hrefresh : ∀ template store names stores storage,
      (Session.refresh { s with stores, storage } template store names).1.Counts
        (notes ++ (s.refresh template store names).2.map .rendered) := by
    intro template store names stores storage
    rw [refresh_eq, refresh_eq, List.map_map]
    exact Counts.rerenderAll (s := { s with stores, storage }) store _ h
  unfold Session.fire fireNotes
  cases Dict.get? s.mounted island with
  | none => exact hnone
  | some m =>
    cases ht : m.template with
    | none => simpa [ht] using hnone
    | some template =>
      simp only [Option.bind_some, ht]
      cases Dict.get? s.stores template with
      | none => exact hnone
      | some store =>
        dsimp only
        cases run { store } with
        | ok x => exact hrefresh _ _ _ _ _
        | error f => exact hrefresh _ _ _ _ _

/-! ## Steps -/

/-- A quiet island opens without a handler of its mount. -/
theorem Opens.handlersOf_mount {s : Session} {i : Island} {o : Opening} (h : s.Opens i o)
    (hquiet : i.Quiet) : handlersOf .mount o.handlers = [] := by
  rcases h with ⟨html, rfl⟩ | ⟨store, -, rfl⟩
  · rfl
  · refine List.filterMap_eq_nil_iff.2 fun x hx => if_neg fun hk => ?_
    obtain ⟨v, n, hvisits, hmakes⟩ :=
      (s.renderer.draw_only true store.toScope i.node).handlers x.1 (List.fst_mem_of_mem_zipIdx hx)
    obtain ⟨b, hb, hx⟩ := hmakes.of_binding (by rw [hk]; decide) (by rw [hk]; decide)
    exact hquiet n hvisits.mem_walk b hb ((congrArg Handler.kind hx).symm.trans hk)

theorem Unmoved.fireMounts {s : Session} (hs : s.Sound) (island : String) (places : List Nat) :
    Unmoved s (s.fireMounts island places) := by
  refine (List.foldlRecOn places _ (motive := fun s' : Session => s'.Sound ∧ Unmoved s s')
    ⟨hs, .refl s⟩ fun s' h i _ => ?_).2
  have hfires := s'.fires_dispatch island .mount i
  exact ⟨hfires.sound h.1, h.2.trans (hfires.unmoved h.1)⟩

/-- What the notes tell of an island by the time that its latest attempt has been recorded. -/
structure Accounted (s : Session) (notes : List Note) (id : String) : Prop where
  balanced : Note.Balanced id notes
  attempted : ∀ m, Dict.get? s.mounted id = some m →
    Note.since (.entered id) (.recorded id) notes ≠ 0
  /-- A quiet island has its first record before any rendering. -/
  prompt : ∀ m, Dict.get? s.mounted id = some m → m.island.Quiet →
    Note.since (.entered id) (.recorded id) notes = 1 → Note.uncounted id notes = 0

/-- Renderings, and what is noted of others, make no difference. -/
theorem Accounted.append {id : String} (h : s.Accounted notes id)
    (hislands : ∀ m, Dict.get? s'.mounted id = some m →
      ∃ m', Dict.get? s.mounted id = some m' ∧ m'.island = m.island)
    (hentered : .entered id ∉ more) (hrecorded : .recorded id ∉ more) :
    s'.Accounted (notes ++ more) id where
  balanced := h.balanced.append hentered
  attempted m hm := by
    obtain ⟨m', hm', -⟩ := hislands m hm
    rw [Note.since_append hentered hrecorded]
    exact h.attempted m' hm'
  prompt m hm hquiet hone := by
    obtain ⟨m', hm', hisland⟩ := hislands m hm
    rw [Note.since_append hentered hrecorded] at hone
    rw [Note.uncounted_append hrecorded]
    exact h.prompt m' hm' (hisland ▸ hquiet) hone

/-- A record sets an account right, unless it is the first one of a quiet island and comes late. -/
theorem accounted_recorded {id : String}
    (hprompt : ∀ m, Dict.get? s.mounted id = some m → m.island.Quiet →
      Note.since (.entered id) (.recorded id) notes = 0 →
        Note.since (.entered id) (.rendered id) notes = 0) :
    s.Accounted (notes ++ [.recorded id]) id where
  balanced := Note.balanced_recorded id notes
  attempted m hm := by
    rw [Note.since_concat, if_neg Note.noConfusion, if_pos rfl]
    exact Nat.succ_ne_zero _
  prompt m hm hquiet hone := by
    rw [Note.since_concat, if_neg Note.noConfusion, if_pos rfl] at hone
    rw [Note.uncounted_recorded]
    exact hprompt m hm hquiet (Nat.succ.inj hone)

/-- The records count the renderings, and the account of every island is right but for the one that
is coming in. -/
structure Tallied (s : Session) (notes : List Note) (entering : Option String) : Prop
    extends Sound s where
  counts : s.Counts notes
  came : ∀ id m, Dict.get? s.mounted id = some m → .entered id ∈ notes
  accounts : ∀ id, entering ≠ some id → s.Accounted notes id

namespace Tallied

variable {entering : Option String}

/-- Nothing is noted but renderings, and no island comes or changes otherwise. -/
theorem step (h : s.Tallied notes entering) (hs : s'.Sound)
    (hislands : ∀ id m, Dict.get? s'.mounted id = some m →
      ∃ m', Dict.get? s.mounted id = some m' ∧ m'.island = m.island)
    (hmore : ∀ y ∈ more, ∃ id, y = .rendered id) (hcounts : s'.Counts (notes ++ more)) :
    s'.Tallied (notes ++ more) entering := by
  refine ⟨hs, hcounts, fun id m hm => ?_, fun id hid =>
    (h.accounts id hid).append (hislands id) ?_ ?_⟩
  · obtain ⟨m', hm', -⟩ := hislands id m hm
    exact List.mem_append_left _ (h.came id m' hm')
  · intro hmem
    obtain ⟨_, he⟩ := hmore _ hmem
    cases he
  · intro hmem
    obtain ⟨_, he⟩ := hmore _ hmem
    cases he

/-- Nothing is noted at all. -/
theorem of_eq (h : s.Tallied notes entering) (hs : s'.Sound)
    (hislands : ∀ id m, Dict.get? s'.mounted id = some m → Dict.get? s.mounted id = some m)
    (hmetrics : s'.metrics = s.metrics) : s'.Tallied notes entering := by
  have hcounts : s'.Counts (notes ++ []) := by
    rw [List.append_nil]
    exact fun id hid => hmetrics ▸ h.counts id hid
  have hstep := h.step hs (fun id m hm => ⟨m, hislands id m hm, rfl⟩)
    (List.forall_mem_nil _) hcounts
  rwa [List.append_nil] at hstep

theorem schedule (h : s.Tallied notes entering) (scheduler : Scheduler (String × Job)) :
    ({ s with scheduler } : Session).Tallied notes entering :=
  h.of_eq (h.toSound.of_eq rfl rfl rfl) (fun _ _ hm => hm) rfl

/-! ### Events -/

/-- The account goes on with an event. -/
theorem event (h : s.Tallied notes entering) (island : String) {run? : Option (Trace → Outcome)}
    (hrun : ∀ run ∈ run?, ByBatches run) :
    (s.after island run?).Tallied (notes ++ s.eventNotes island run?) entering := by
  cases run? with
  | none => exact (List.append_nil notes).symm ▸ h
  | some run =>
    have hfires : s.Fires island (s.fire island run).1 := .inr ⟨run, hrun run rfl, rfl⟩
    refine h.step (hfires.sound h.toSound) (fun id m hm => ?_)
      (fun y hy => rendered_of_mem_eventNotes hy) (h.counts.fire island run)
    obtain ⟨m', hm', hbare⟩ := (hfires.unmoved h.toSound).symm.exists_bare hm
    exact ⟨m', hm', (congrArg Mounted.island hbare :)⟩

/-- The account goes on with a job. -/
theorem runJob (h : s.Tallied notes entering) (island : String) (job : Job) :
    (s.runJob island job).1.Tallied (notes ++ s.eventNotes island (s.worked? island job))
      entering :=
  runJob_eq s island job ▸ h.event island (worked?_byBatches s island job)

/-- The account goes on with the mount handlers of an island that comes in. -/
theorem fireMounts (h : s.Tallied notes entering) (island : String) (places : List Nat) :
    (s.fireMounts island places).Tallied (notes ++ s.mountNotes island places) entering := by
  induction places generalizing s notes with
  | nil => exact (List.append_nil notes).symm ▸ h
  | cons i places ih =>
    have hevent := h.event island (dispatched?_byBatches s island .mount i)
    rw [← dispatch_eq] at hevent
    rw [mountNotes, ← List.append_assoc]
    exact ih hevent

/-! ### Attempts -/

/-- An island comes in. Its record is still to come. -/
theorem settle (h : s.Tallied notes none) {p : Pass} {island : Island} {placeholder : NodeId}
    {c : MountedComponent} {o : Opening} (hs : (s.settle p island placeholder c o).Sound) :
    (s.settle p island placeholder c o).Tallied (notes ++ [.entered island.id])
      (some island.id) := by
  obtain ⟨timers, hmounted, -⟩ := settle_eq s p island placeholder c o
  have hold : ∀ id m, island.id ≠ id →
      Dict.get? (s.settle p island placeholder c o).mounted id = some m →
        Dict.get? s.mounted id = some m := by
    intro id m hne hm
    rwa [hmounted, Dict.get?_insert, if_neg hne] at hm
  refine ⟨hs, h.counts.append rfl (by simp) (by simp), fun id m hm => ?_, fun id hid => ?_⟩
  · by_cases he : island.id = id
    · exact List.mem_append_right _ (he ▸ List.mem_cons_self)
    · exact List.mem_append_left _ (h.came id m (hold id m he hm))
  · have hne : island.id ≠ id := fun he => hid (congrArg some he)
    exact (h.accounts id nofun).append (fun m hm => ⟨m, hold id m hne hm, rfl⟩)
      (by simpa using hne.symm) (by simp)

/-- The attempt is over. Its record starts from nothing. An island that is not coming in has been
attempted before. -/
theorem record (h : s.Tallied notes entering) (island : Island) (outcome : HydrationOutcome)
    (hentering : ∀ id, entering = some id → id = island.id)
    (hprompt : entering = some island.id → ∀ m, Dict.get? s.mounted island.id = some m →
      m.island.Quiet → Note.since (.entered island.id) (.rendered island.id) notes = 0) :
    (s.record island outcome).Tallied (notes ++ [.recorded island.id]) none := by
  refine ⟨h.toSound.of_eq rfl rfl rfl, fun id hid => ?_,
    fun id m hm => List.mem_append_left _ (h.came id m hm), fun id _ => ?_⟩
  · by_cases he : island.id = id
    · refine ⟨{ component := island.component, outcome }, ?_, ?_⟩
      · exact he ▸ Dict.get?_insert_self _ _ _
      · rw [he, Note.since_concat, if_pos rfl]
    · have hother : .recorded id ∉ [Note.recorded island.id] := by simpa using Ne.symm he
      obtain ⟨x, hx, hcount⟩ := h.counts id ((List.mem_append.1 hid).resolve_right hother)
      refine ⟨x, (Dict.get?_insert _ _ _ _).trans ((if_neg he).trans hx), ?_⟩
      rw [hcount, Note.since_append hother (by simp)]
  · by_cases he : island.id = id
    · subst he
      refine accounted_recorded fun m hm hquiet hzero => hprompt ?_ m hm hquiet
      by_contra hne
      exact (h.accounts _ hne).attempted m hm hzero
    · exact (h.accounts id fun hid => he (hentering id hid).symm).append (fun m hm => ⟨m, hm, rfl⟩)
        (by simp) (by simpa using Ne.symm he)

section Vacant

variable {n : NodeId} {island : Island} (hvacant : s.Vacant n island.id)
include hvacant

/-- A placeholder that is claimed changes no account. -/
theorem claim (h : s.Tallied notes none) : (s.claim n).Tallied notes none :=
  h.of_eq (hvacant.sound_claim h.toSound) (fun _ _ hm => hm) rfl

/-- No island comes in, and there is nothing to note but that it has been tried. -/
theorem refuse (h : s.Tallied notes none) (e : HydrationError) :
    (((s.claim n).fail n e).record island .failed).Tallied (notes ++ [.recorded island.id])
      none := by
  have hclaimed := h.claim hvacant
  have hsound : ((s.claim n).fail n e).Sound :=
    hclaimed.toSound.fail e (by rw [hvacant.attr?_claim]; decide)
  have hfailed : ((s.claim n).fail n e).Tallied notes none := by
    obtain ⟨document, he⟩ := fail_eq (s.claim n) n e
    rw [he] at hsound ⊢
    exact hclaimed.of_eq hsound (fun _ _ hm => hm) rfl
  exact hfailed.record island .failed nofun nofun

/-- An island comes in, has its mount handlers fired, and is recorded. -/
theorem takeIn (h : s.Tallied notes none) {p : Pass} {c : MountedComponent} {s₁ : Session}
    {o : Opening} (hopening : (s.claim n).opening p.resident island c = .ok (s₁, o)) :
    (((s₁.settle p island n c o).fireMounts island.id (handlersOf .mount o.handlers)).record island
      .hydrated).Tallied
        (notes ++ [.entered island.id] ++
          (s₁.settle p island n c o).mountNotes island.id (handlersOf .mount o.handlers) ++
          [.recorded island.id]) none := by
  have hclaimed := h.claim hvacant
  have hopened := sound_opening hclaimed.toSound hopening
  have hopens := (opening_eq_ok hopening).1
  obtain ⟨stores, rfl⟩ := opening_keeps hopening
  have hsettled := hopened.settle p c hvacant.attr?_claim hopens
  have hentered := (hclaimed.of_eq hopened (fun _ _ hm => hm) rfl).settle hsettled
  refine (hentered.fireMounts island.id _).record island .hydrated
    (fun id he => (Option.some.inj he).symm) fun _ m hm hquiet => ?_
  obtain ⟨timers, hmounted, -⟩ := settle_eq { s.claim n with stores } p island n c o
  obtain ⟨m', hm', hbare⟩ := (Unmoved.fireMounts hsettled island.id _).symm.exists_bare hm
  rw [hmounted, Dict.get?_insert_self] at hm'
  obtain rfl := Option.some.inj hm'
  obtain rfl : island = m.island := (congrArg Mounted.island hbare :)
  rw [hopens.handlersOf_mount hquiet, mountNotes, List.append_nil, Note.since_concat, if_pos rfl]

end Vacant

theorem hydrateOne {p : Pass} (hp : p.Keyed) (h : s.Tallied notes none) (n : NodeId)
    (r : HydrationResult) :
    (Session.hydrateOne p s r n).1.Tallied (notes ++ attemptNotes p s n) none := by
  have hnone : s.Tallied (notes ++ []) none := (List.append_nil notes).symm ▸ h
  unfold attemptNotes
  cases hid : s.document.attr? n Page.islandAttr with
  | none =>
    unfold Session.hydrateOne
    rw [hid]
    exact hnone
  | some id =>
    rw [Option.bind_some]
    cases hisland : Dict.get? p.islands id with
    | none =>
      obtain ⟨warnings, hall⟩ := hydrateOne_unknown hid hisland r
      rwa [hall]
    | some island =>
      obtain rfl := hp id island hisland
      dsimp only
      cases hfree : (State.ofAttr (s.document.attr? n Hydration.stateAttr)).isFree with
      | false =>
        rw [hydrateOne_taken hid hisland hfree]
        exact hnone
      | true =>
        have hvacant : s.Vacant n island.id := ⟨hid, hfree⟩
        rw [hydrateOne_vacant hvacant hisland, if_pos rfl]
        cases hmount : (s.claim n).mount p island n with
        | mk s' result =>
          cases result with
          | error e =>
            obtain ⟨rfl, -⟩ := mount_eq_error hmount
            exact h.refuse hvacant e
          | ok _ =>
            obtain ⟨-, c, s₁, o, hregistry, hopening, rfl⟩ := mount_eq_ok hmount
            rw [entered?_eq_some hregistry hopening]
            simpa only [List.append_assoc, List.cons_append, List.nil_append] using
              h.takeIn hvacant hopening

theorem pass {p : Pass} (hp : p.Keyed) (h : s.Tallied notes none) (ns : List NodeId)
    (r : HydrationResult) :
    (ns.foldl (fun sr n => Session.hydrateOne p sr.1 sr.2 n) (s, r)).1.Tallied
      (notes ++ passNotes p ns s r) none := by
  induction ns generalizing s notes r with
  | nil => exact (List.append_nil notes).symm ▸ h
  | cons n ns ih =>
    rw [passNotes, ← List.append_assoc]
    exact ih (h.hydrateOne hp n r) _

theorem hydrate (h : s.Tallied notes none) (containerId : String) (resident : Resident)
    (islands : List Island) (time : String) :
    (s.hydrate containerId resident islands time).1.Tallied
      (notes ++ s.callNotes (.hydrate containerId resident islands time)) none := by
  unfold Session.hydrate
  rw [callNotes]
  cases s.document.byId? containerId with
  | none => exact (List.append_nil notes).symm ▸ h
  | some container => exact h.pass (fun _ _ hi => (keyed_ofList islands hi).2) _ _

/-! ### Islands that go, and time that passes -/

theorem unmount (h : s.Tallied notes none) (ids : List String) :
    (s.unmount ids).1.Tallied notes none := by
  have hall : (ids.foldl (fun sr id => unmountOne sr.1 sr.2 id) (s, {})).1.Tallied notes none := by
    refine List.foldlRecOn ids _ (motive := fun sr : Session × CleanupReport =>
      sr.1.Tallied notes none) h fun sr hsr id _ => ?_
    refine hsr.of_eq (hsr.toSound.unmountOne sr.2 id) (fun other m hm => ?_) ?_
    · rw [mounted_unmountOne] at hm
      exact (Dict.get?_erase_eq_some hm).2
    · unfold unmountOne
      split
      · rfl
      · rfl
  exact hall.of_eq hall.toSound.dropStores (fun _ _ hm => hm) rfl

theorem runDue (h : s.Tallied notes none) (time : Nat) (r : TickReport) :
    (runDue time s r).1.Tallied (notes ++ dueNotes time s) none := by
  fun_induction Session.runDue time s r generalizing notes with
  | case1 s r scheduler hpop =>
    rw [dueNotes, hpop, List.append_nil]
    exact h.schedule scheduler
  | case2 s r scheduler timer hpop next r' hless =>
    rename_i ih
    rw [dueNotes, hpop]
    dsimp only
    rw [dif_pos hless, ← List.append_assoc]
    exact ih ((h.schedule scheduler).runJob timer.payload.1 timer.payload.2)
  | case3 s r scheduler timer hpop next r' =>
    rename_i hless
    rw [dueNotes, hpop]
    dsimp only
    rw [dif_neg hless, List.append_nil]
    exact (h.schedule scheduler).runJob timer.payload.1 timer.payload.2

/-! ### Runs -/

theorem call (h : s.Tallied notes none) (c : Call) :
    (s.call c).Tallied (notes ++ s.callNotes c) none := by
  cases c with
  | load t scope =>
    rw [callNotes, List.append_nil]
    exact h.of_eq (h.toSound.of_eq rfl rfl rfl) (fun _ _ hm => hm) rfl
  | hydrate containerId resident islands time => exact h.hydrate containerId resident islands time
  | dispatch island kind index =>
    show (s.dispatch island kind index).1.Tallied _ none
    exact dispatch_eq s island kind index ▸
      h.event island (dispatched?_byBatches s island kind index)
  | change island index value =>
    show (s.change island index value).1.Tallied _ none
    exact change_eq s island index value ▸ h.event island (changed?_byBatches s island index value)
  | advance ms => exact (h.runDue (laterBy s.now ms) {}).schedule _
  | cleanup =>
    rw [callNotes, List.append_nil]
    exact h.unmount _
  | cleanupIn containerId =>
    rw [callNotes, List.append_nil]
    show (s.cleanupIn containerId).1.Tallied notes none
    unfold cleanupIn
    split
    · exact h
    · exact h.unmount _

theorem run (h : s.Tallied notes none) (calls : List Call) :
    (s.run calls).Tallied (notes ++ s.notes calls) none := by
  induction calls generalizing s notes with
  | nil => exact (List.append_nil notes).symm ▸ h
  | cons c calls ih =>
    rw [Session.notes, ← List.append_assoc]
    exact ih (h.call c)

end Tallied

theorem Unhydrated.tallied {s : Session} (h : s.Unhydrated) : s.Tallied [] none := by
  have hnone : ∀ id m, Dict.get? s.mounted id ≠ some m := fun id m hm => by
    rw [h.mounted] at hm
    cases hm
  exact ⟨h.inStep.toSound, fun _ hid => absurd hid List.not_mem_nil,
    fun id m hm => absurd hm (hnone id m),
    fun id _ => ⟨rfl, fun m hm => absurd hm (hnone id m), fun _ _ _ _ => rfl⟩⟩

/-- Whatever is called, an island that is mounted has come in, and its record counts the renderings
since the latest attempt at its name was over. Of the renderings since it came in, those are missing
that this attempt was recorded too late for. There are none if nothing in the island handles its
mount and there has been but one attempt. -/
theorem renders_of_run {s : Session} (hs : s.Unhydrated) (calls : List Call) {id : String}
    {m : Mounted} (hm : Dict.get? (s.run calls).mounted id = some m) :
    ∃ x, Dict.get? (s.run calls).metrics id = some x ∧ .entered id ∈ s.notes calls ∧
      x.renders = Note.since (.recorded id) (.rendered id) (s.notes calls) ∧
      Note.since (.entered id) (.rendered id) (s.notes calls) =
        x.renders + Note.uncounted id (s.notes calls) ∧
      (m.island.Quiet → Note.since (.entered id) (.recorded id) (s.notes calls) = 1 →
        x.renders = Note.since (.entered id) (.rendered id) (s.notes calls)) := by
  have hrun := hs.tallied.run calls
  rw [List.nil_append] at hrun
  obtain ⟨hbalanced, hattempted, hprompt⟩ := hrun.accounts id nofun
  obtain ⟨x, hx, hcount⟩ := hrun.counts id (Note.mem_of_since (hattempted m hm))
  rw [Note.Balanced, ← hcount] at hbalanced
  refine ⟨x, hx, hrun.came id m hm, hcount, hbalanced, fun hquiet hone => ?_⟩
  rw [hbalanced, hprompt m hm hquiet hone, Nat.add_zero]

/-! ## Two buttons -/

/-- A button that counts clicks and shows how many, with a handler of something else. -/
def welcomeMarkup (more : String) : String :=
  "<Var name=\"n\" type=\"number\" initial=\"0\"/><Button><OnClick><Increment var=\"n\"/></OnClick>"
    ++ more ++ "<ShowVar var=\"n\"/></Button>"

/-- Counts the mount as well. -/
def greeting : String := "<OnMount><Increment var=\"n\"/></OnMount>"

/-- A click renders the button anew, and is counted. -/
theorem renders_clicked :
    ∃ t m x, (compile {} (welcomeMarkup "")).template? = some t ∧
      Dict.get? ((staged t).run [enter t, .dispatch "i" .click 0]).mounted "i" = some m ∧
      Dict.get? ((staged t).run [enter t, .dispatch "i" .click 0]).metrics "i" = some x ∧
      x.renders = 1 ∧
      (staged t).notes [enter t, .dispatch "i" .click 0] =
        [.entered "i", .recorded "i", .rendered "i"] := by
  have ht : ((compile {} (welcomeMarkup "")).template?.bind fun t =>
      (Dict.get? ((staged t).run [enter t, .dispatch "i" .click 0]).mounted "i").map fun m =>
        decide (m.island.Quiet ∧ (staged t).notes [enter t, .dispatch "i" .click 0] =
          [.entered "i", .recorded "i", .rendered "i"])) = some true := by
    decide +kernel
  obtain ⟨t, htemplate, ht⟩ := Option.bind_eq_some_iff.1 ht
  obtain ⟨m, hm, ht⟩ := Option.map_eq_some_iff.1 ht
  obtain ⟨hquiet, hnotes⟩ := of_decide_eq_true ht
  obtain ⟨x, hx, -, -, -, hall⟩ := renders_of_run (staged_unhydrated t).1 _ hm
  rw [hnotes] at hall
  exact ⟨t, m, x, htemplate, hm, hx, hall hquiet (by decide), hnotes⟩

/-- A button that counts its own mount has been rendered anew by the time that its record is
written. So this is not counted. -/
theorem not_renders_welcomed :
    ∃ t m x, (compile {} (welcomeMarkup greeting)).template? = some t ∧ (staged t).Unhydrated ∧
      Dict.get? ((staged t).run [enter t]).mounted "i" = some m ∧
      Dict.get? ((staged t).run [enter t]).metrics "i" = some x ∧ x.renders = 0 ∧
      (staged t).notes [enter t] = [.entered "i", .rendered "i", .recorded "i"] ∧
      Note.since (.entered "i") (.rendered "i") ((staged t).notes [enter t]) = 1 := by
  have ht : ((compile {} (welcomeMarkup greeting)).template?.bind fun t =>
      (Dict.get? ((staged t).run [enter t]).mounted "i").bind fun m =>
        (Dict.get? ((staged t).run [enter t]).metrics "i").map fun x =>
          decide (x.renders = 0 ∧
            (staged t).notes [enter t] = [.entered "i", .rendered "i", .recorded "i"])) =
      some true := by
    decide +kernel
  obtain ⟨t, htemplate, ht⟩ := Option.bind_eq_some_iff.1 ht
  obtain ⟨m, hm, ht⟩ := Option.bind_eq_some_iff.1 ht
  obtain ⟨x, hx, ht⟩ := Option.map_eq_some_iff.1 ht
  obtain ⟨hzero, hnotes⟩ := of_decide_eq_true ht
  exact ⟨t, m, x, htemplate, (staged_unhydrated t).1, hm, hx, hzero, hnotes,
    hnotes ▸ (by decide)⟩

end Session

end Archipelago
