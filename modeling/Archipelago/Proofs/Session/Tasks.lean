import Archipelago.Proofs.Page.Visits
import Archipelago.Proofs.Session.Timers

/-!
# Tasks of islands

What the timers of an island do, against what its handlers ask for. There is always one task for
each interval handler. Its period is that of the rendering for which the timers were made, and need
not be the current one: a branch with an interval may give way to another whose interval stands in
the same place.
-/

namespace Archipelago

open Page (Handler Renderer)

namespace Session

/-- What the live timers of an island that come back do, and with which periods. -/
def tasks (s : Session) (island : String) : List (Job × Nat) :=
  (s.scheduler.ofIsland island).map fun e => (e.payload.2, e.period)

/-- The tasks that handlers ask for. A timer has a period of at least one millisecond. -/
def due (least : Nat) (handlers : List Handler) : List (Job × Nat) :=
  (intervals least handlers).map fun x => (.interval x.1, max x.2 1)

theorem jobs_due (least : Nat) (handlers : List Handler) :
    (due least handlers).map (·.1) = ((intervals least handlers).map (·.1)).map .interval := by
  unfold due
  rw [List.map_map, List.map_map]
  rfl

theorem tasks_entries (token : Token) (island : String) (first : Nat) (ws : List (Nat × Nat)) :
    (entries token island first ws).map (fun e => (e.payload.2, e.period)) =
      ws.map fun x => (.interval x.1, max x.2 1) := by
  induction ws generalizing first with
  | nil => rfl
  | cons w ws ih => exact congrArg (List.cons _) (ih (first + 1))

theorem Mounted.Runs.tasks {s : Session} {m : Mounted} {shown : List Handler}
    (h : m.Runs s shown) : s.tasks m.island.id = due s.config.hydration.minIntervalMs shown := by
  obtain ⟨first, hown, -⟩ := h.keeps
  rw [Session.tasks, hown, tasks_entries, due]

/-- Whose timers are in step stays in step with a rendering if and only if this does not leave all
intervals in their places and give one of them another period. -/
theorem Timed.tasks_rerender {s : Session} (h : s.Timed) (store : Store) {m : Mounted}
    (hm : Dict.get? s.mounted m.island.id = some m)
    (hin : s.tasks m.island.id = due s.config.hydration.minIntervalMs m.handlers) :
    (s.rerender store m).tasks m.island.id = due s.config.hydration.minIntervalMs
        (s.renderer.renderIsland store.toScope m.island).handlers ↔
      ((due s.config.hydration.minIntervalMs m.handlers).map (·.1) =
          (due s.config.hydration.minIntervalMs
            (s.renderer.renderIsland store.toScope m.island).handlers).map (·.1) →
        due s.config.hydration.minIntervalMs m.handlers = due s.config.hydration.minIntervalMs
          (s.renderer.renderIsland store.toScope m.island).handlers) := by
  obtain ⟨shown, hkeeps, hplaces, -⟩ := h.runs _ m hm
  have htimers := hkeeps.places.trans hplaces
  have hinj : Function.Injective Job.interval := fun i j he => by cases he; rfl
  generalize hnew : (s.renderer.renderIsland store.toScope m.island).handlers = new
  have hsch : (s.rerender store m).scheduler =
      (syncTimers s.config.hydration.minIntervalMs s.scheduler { m with handlers := new }).1 := by
    rw [← hnew]
    rfl
  rw [jobs_due, jobs_due, (List.map_injective_iff.2 hinj).eq_iff, ← htimers]
  by_cases hsame : m.timers.map (·.1) =
      (intervals s.config.hydration.minIntervalMs new).map (·.1)
  · have hkept : (s.rerender store m).tasks m.island.id = s.tasks m.island.id := by
      rw [Session.tasks, hsch, syncTimers, if_pos hsame.symm]
      rfl
    rw [hkept, hin]
    exact ⟨fun he _ => he, fun he => he hsame⟩
  · refine ⟨fun _ he => absurd he hsame, fun _ => ?_⟩
    have hkeeps' : Mounted.Keeps s.scheduler { m with handlers := new }
      (intervals s.config.hydration.minIntervalMs shown) := hkeeps
    obtain ⟨-, hnow⟩ : Renewed m.island.id s.scheduler (syncTimers
        s.config.hydration.minIntervalMs s.scheduler { m with handlers := new }).1 ∧ _ :=
      syncTimers_keeps (m := { m with handlers := new }) h.orderly (h.live _ m hm).1 hkeeps'
    rcases hnow with ⟨first, hown, -⟩ | ⟨-, hold⟩
    · obtain ⟨sch, timers, hsync⟩ := syncTimers_mounted s.config.hydration.minIntervalMs s.scheduler
        { m with handlers := new }
      rw [hsync] at hown hsch
      rw [Session.tasks, hsch, hown, tasks_entries, due]
    · exact absurd (hkeeps.places.trans hold) hsame

end Session

open Session (due intervals)

/-- Renderings of the island that have their intervals in the same places have the same
intervals. -/
def Island.Steady (r : Renderer) (least : Nat) (i : Island) : Prop :=
  ∀ a b : Store,
    (intervals least (r.renderIsland a.toScope i).handlers).map (·.1) =
        (intervals least (r.renderIsland b.toScope i).handlers).map (·.1) →
      intervals least (r.renderIsland a.toScope i).handlers =
        intervals least (r.renderIsland b.toScope i).handlers

/-! ## Islands with one period -/

/-- All intervals in the tree of the island have this period. -/
def Island.Ticks (least period : Nat) (i : Island) : Prop :=
  ∀ n ∈ i.node.walk, ∀ b ∈ n.bindings, b.kind = .interval →
    max (b.intervalMs.getD least) least = period

instance (least period : Nat) : DecidablePred (Island.Ticks least period) := fun i => by
  unfold Island.Ticks
  infer_instance

/-- An interval handler comes from an interval of the tree. -/
theorem Page.Makes.of_interval {v : View} {n : Template.Node} {h : Handler} (hm : Makes v n h)
    (hk : h.kind = .interval) :
    ∃ b ∈ n.bindings, b.kind = .interval ∧ h.intervalMs = b.intervalMs := by
  obtain ⟨b, hb, rfl⟩ := hm.of_binding (by rw [hk]; decide) (by rw [hk]; decide)
  exact ⟨b, hb, hk, rfl⟩

theorem Session.intervals_of_period {least period : Nat} {handlers : List Handler}
    (h : ∀ x ∈ handlers, x.kind = .interval → max (x.intervalMs.getD least) least = period) :
    intervals least handlers = ((intervals least handlers).map (·.1)).map fun i => (i, period) := by
  rw [List.map_map]
  refine (List.map_id _).symm.trans (List.map_congr_left fun x hx => ?_)
  obtain ⟨⟨handler, i⟩, hmem, hsome⟩ := List.mem_filterMap.1 hx
  dsimp only at hsome
  split at hsome
  · rename_i hk
    obtain rfl := Option.some.inj hsome
    refine Prod.ext rfl (h handler ?_ hk)
    exact (List.mem_zipIdx' hmem).2 ▸ List.getElem_mem _
  · cases hsome

theorem Island.steady_of_ticks {r : Renderer} {least period : Nat} {i : Island}
    (h : i.Ticks least period) : i.Steady r least := by
  have hall : ∀ a : Store, ∀ x ∈ (r.renderIsland a.toScope i).handlers, x.kind = .interval →
      max (x.intervalMs.getD least) least = period := by
    intro a x hx hk
    obtain ⟨v, n, hvisits, hmakes⟩ := (r.draw_only true a.toScope i.node).handlers x hx
    obtain ⟨b, hb, hkind, hms⟩ := hmakes.of_interval hk
    rw [hms]
    exact h n hvisits.mem_walk b hb hkind
  intro a b hplaces
  rw [Session.intervals_of_period (hall a), Session.intervals_of_period (hall b), hplaces]

namespace Session

/-! ## Runs -/

theorem Unhydrated.timed {s : Session} (h : s.Unhydrated) (hsch : s.scheduler = {}) : s.Timed := by
  have hm : ∀ id, Dict.get? s.mounted id = none := fun id => by rw [h.mounted]; rfl
  refine ⟨h.inStep.toSound, ?_, ?_, ?_, ?_, ?_, ?_⟩
  · rw [hsch]
    exact ⟨List.nodup_nil, List.forall_mem_nil _⟩
  · rw [hsch]
    exact List.forall_mem_nil _
  · exact fun id m hget => by cases (hm id).symm.trans hget
  · rw [hsch]
    exact List.forall_mem_nil _
  · exact fun id id' m m' hget => by cases (hm id).symm.trans hget
  · exact fun id m hget => by cases (hm id).symm.trans hget

/-- Whatever is called, an island has one task for each of its interval handlers. The periods are
those of a rendering with its intervals in the same places, and so the current ones if the island is
steady. Where they are the current ones, they are so after one more rendering if and only if this
does not leave all intervals in their places and give one of them another period. -/
theorem tasks_of_run {s : Session} (hs : s.Unhydrated) (hsch : s.scheduler = {})
    (calls : List Call) {id : String} {m : Mounted}
    (hm : Dict.get? (s.run calls).mounted id = some m) :
    ((s.run calls).tasks id).map (·.1) =
        (due s.config.hydration.minIntervalMs m.handlers).map (·.1) ∧
      (∃ shown, (s.run calls).tasks id = due s.config.hydration.minIntervalMs shown ∧
        (shown = m.handlers ∨ s.Draws m.island shown ∧ s.Draws m.island m.handlers)) ∧
      (m.island.Steady s.renderer s.config.hydration.minIntervalMs →
        (s.run calls).tasks id = due s.config.hydration.minIntervalMs m.handlers) ∧
      ((s.run calls).tasks id = due s.config.hydration.minIntervalMs m.handlers →
        ∀ (store : Store) (anew : List Handler),
          anew = (s.renderer.renderIsland store.toScope m.island).handlers →
          (((s.run calls).rerender store m).tasks id =
              due s.config.hydration.minIntervalMs anew ↔
            ((due s.config.hydration.minIntervalMs m.handlers).map (·.1) =
                (due s.config.hydration.minIntervalMs anew).map (·.1) →
              due s.config.hydration.minIntervalMs m.handlers =
                due s.config.hydration.minIntervalMs anew))) := by
  have htimed := timed_stable.run (hs.timed hsch) calls
  have hconfig := (config_stable s.config).run rfl calls
  obtain ⟨shown, hruns⟩ := htimed.runs id m hm
  have htasks := hruns.tasks
  have hplaces := hruns.places
  rw [htimed.named id m hm, hconfig] at htasks
  rw [hconfig] at hplaces
  have hdraws : (s.run calls).Draws = s.Draws := by
    unfold Draws renderer
    rw [hconfig]
  have hdrawn : intervals s.config.hydration.minIntervalMs shown =
      intervals s.config.hydration.minIntervalMs m.handlers ∨
        s.Draws m.island shown ∧ s.Draws m.island m.handlers := by
    cases ht : m.template with
    | none =>
      have hnone := htimed.idle id m hm ht
      rw [hnone] at hplaces ⊢
      exact .inl (List.map_eq_nil_iff.1 hplaces)
    | some t => exact .inr (hdraws ▸ hruns.drawn (by rw [ht]; exact Option.some_ne_none _))
  refine ⟨?_, ?_, fun hsteady => ?_, fun hin store anew hanew => ?_⟩
  · rw [htasks, jobs_due, jobs_due, hplaces]
  · rcases hdrawn with hsame | hdrawn
    · exact ⟨m.handlers, by rw [htasks, due, due, hsame], .inl rfl⟩
    · exact ⟨shown, htasks, .inr hdrawn⟩
  · rcases hdrawn with hsame | ⟨⟨a, rfl⟩, ⟨b, hb⟩⟩
    · rw [htasks, due, due, hsame]
    · rw [hb] at hplaces ⊢
      rw [htasks, due, due, hsteady a b hplaces]
  · have hrenderer : (s.run calls).renderer = s.renderer := by rw [renderer, hconfig, renderer]
    obtain rfl := htimed.named id m hm
    have hexact := htimed.tasks_rerender store hm (hconfig ▸ hin)
    rwa [hrenderer, hconfig, ← hanew] at hexact

/-! ## Two branches with intervals -/

/-- Two branches with one interval each, in the same place. Each run of the slow one changes over to
the fast one. -/
def pulseMarkup (fast : String) : String :=
  "<Var name=\"a\" type=\"boolean\"/><If var=\"a\"><OnInterval interval=\"" ++ fast
    ++ "\"/></If><Else><OnInterval interval=\"900\"><Toggle var=\"a\"/></OnInterval></Else>"

/-- A page with one free place, and with the template under a short name. -/
def staged (t : Template) : Session :=
  let (document, container) := ({} : Document).addContainer "root"
  { document := document.mount container (.fragment [.island "i" "IfChain" []])
    templates := [("t", ⟨t, "profile:1"⟩)] }

theorem staged_unhydrated (t : Template) :
    (staged t).Unhydrated ∧ (staged t).config = {} ∧ (staged t).scheduler = {} :=
  ⟨⟨rfl, rfl⟩, rfl, rfl⟩

/-- The island of the template takes the place, and its slow interval is run once. -/
def pulse (t : Template) : List Call :=
  [.hydrate "root" {} (t.islands.map fun i => { i with id := "i", templateId := "t" }) "12:00",
    .dispatch "i" .interval 0]

/-- Where both branches have the same period, the task of the island has it as well. -/
theorem tasks_pulse :
    ∃ t m, (compile {} (pulseMarkup "900")).template? = some t ∧
      Dict.get? ((staged t).run (pulse t)).mounted "i" = some m ∧
      ((staged t).run (pulse t)).tasks "i" = due 100 m.handlers ∧
      (due 100 m.handlers).map (·.2) = [900] := by
  have ht : ((compile {} (pulseMarkup "900")).template?.bind fun t =>
      (Dict.get? ((staged t).run (pulse t)).mounted "i").map fun m =>
        decide (m.island.Ticks 100 900 ∧ (due 100 m.handlers).map (·.2) = [900])) = some true := by
    decide +kernel
  obtain ⟨t, htemplate, ht⟩ := Option.bind_eq_some_iff.1 ht
  obtain ⟨m, hm, hticks⟩ := Option.map_eq_some_iff.1 ht
  obtain ⟨hticks, hdue⟩ := of_decide_eq_true hticks
  obtain ⟨hs, hconfig, hsch⟩ := staged_unhydrated t
  have htasks := (tasks_of_run hs hsch (pulse t) hm).2.2.1
  rw [hconfig] at htasks
  exact ⟨t, m, htemplate, hm, htasks (Island.steady_of_ticks hticks), hdue⟩

/-- Else it keeps the period of the branch that has gone. -/
theorem tasks_ne_due_pulse :
    ∃ t m, (compile {} (pulseMarkup "200")).template? = some t ∧ (staged t).Unhydrated ∧
      (staged t).scheduler = {} ∧ Dict.get? ((staged t).run (pulse t)).mounted "i" = some m ∧
      ((staged t).run (pulse t)).tasks "i" ≠ due 100 m.handlers := by
  have ht : ((compile {} (pulseMarkup "200")).template?.bind fun t =>
      (Dict.get? ((staged t).run (pulse t)).mounted "i").map fun m =>
        decide ((((staged t).run (pulse t)).tasks "i").map (·.2) ≠
          (due 100 m.handlers).map (·.2))) = some true := by
    decide +kernel
  obtain ⟨t, htemplate, ht⟩ := Option.bind_eq_some_iff.1 ht
  obtain ⟨m, hm, hoff⟩ := Option.map_eq_some_iff.1 ht
  obtain ⟨hs, -, hsch⟩ := staged_unhydrated t
  exact ⟨t, m, htemplate, hs, hsch, hm, fun he => of_decide_eq_true hoff (by rw [he])⟩

end Session

end Archipelago
