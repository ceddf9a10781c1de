import Archipelago.Proofs.Action.Trace
import Archipelago.Proofs.Document
import Archipelago.Session.Advance
import Archipelago.Session.Cleanup
import Archipelago.Session.Hydrate

/-!
# Runs of calls on a session

The calls that a page can receive, in any order and with any arguments. Each of them is made of a
few steps, so a property that every step keeps holds after any run.
-/

namespace Archipelago

open Hydration (MountedComponent State)

namespace Session

/-- What can be asked of a session. -/
inductive Call where
  | load (t : Template) (scope : String)
  | hydrate (containerId : String) (resident : Resident) (islands : List Island) (time : String)
  | dispatch (island : String) (kind : EventKind) (index : Nat)
  | change (island : String) (index : Nat) (value : Value)
  | advance (ms : Nat)
  | cleanup
  | cleanupIn (containerId : String)

/-- What a call leaves; what it reports is another matter. -/
def call (s : Session) : Call → Session
  | .load t scope => s.loadTemplate t scope
  | .hydrate containerId resident islands time => (s.hydrate containerId resident islands time).1
  | .dispatch island kind index => (s.dispatch island kind index).1
  | .change island index value => (s.change island index value).1
  | .advance ms => (s.advance ms).1
  | .cleanup => s.cleanup.1
  | .cleanupIn containerId => (s.cleanupIn containerId).1

/-- Makes the calls, first to last. -/
def run (s : Session) (calls : List Call) : Session := calls.foldl call s

/-- An island rendered from a store, for the first time. -/
def openingFrom (s : Session) (store : Store) (island : Island) : Opening :=
  let content := s.renderer.renderIsland store.toScope island
  { html := Page.Node.htmlAll content.children, handlers := content.handlers
    reads := subtreeReads island.node, template := some island.templateId }

/-- What an island shows first: the content of its component, or what the store of its template
makes of it. -/
def Opens (s : Session) (island : Island) (o : Opening) : Prop :=
  (∃ html, o = { html }) ∨
    ∃ store, Dict.get? s.stores island.templateId = some store ∧ o = s.openingFrom store island

/-- Only batches are made by the run of an event. -/
def ByBatches (run : Trace → Outcome) : Prop := ∀ t : Trace, t.Reaches (lastTrace Prod.fst (run t))

/-- The steps in which no time passes, and that a property is kept by each of them. -/
structure Timeless (P : Session → Prop) : Prop where
  load {s : Session} (t : Template) (scope : String) : P s → P (s.loadTemplate t scope)
  fire {s : Session} {run : Trace → Outcome} (island : String) :
    P s → ByBatches run → P (s.fire island run).1
  /-- A free placeholder is taken. -/
  take {s : Session} {placeholder : NodeId} {id : String} :
    P s → s.document.attr? placeholder Page.islandAttr = some id →
      (State.ofAttr (s.document.attr? placeholder Hydration.stateAttr)).isFree = true →
      P { s with
        document := s.document.setAttr placeholder Hydration.stateAttr State.hydrating.name }
  ensure {s s' : Session} {template : String} {resident : Resident} {store : Store} :
    P s → s.ensureStore template resident = .ok (s', store) → P s'
  /-- An island is put into a placeholder that has been taken. -/
  settle {s : Session} {p : Pass} {island : Island} {placeholder : NodeId} {c : MountedComponent}
    {o : Opening} :
    P s → s.document.attr? placeholder Hydration.stateAttr = some State.hydrating.name →
      Dict.get? s.mounted island.id = none → s.Opens island o →
      P (s.settle p island placeholder c o)
  /-- No island comes into a placeholder that has been taken. -/
  fail {s : Session} {placeholder : NodeId} (e : HydrationError) :
    P s → s.document.attr? placeholder Hydration.stateAttr = some State.hydrating.name →
      P (s.fail placeholder e)
  record {s : Session} (island : Island) (outcome : HydrationOutcome) :
    P s → P (s.record island outcome)
  unmountOne {s : Session} (r : CleanupReport) (id : String) : P s → P (unmountOne s r id).1
  dropStores {s : Session} : P s → P s.dropStores

/-- The steps that all calls are made of, and that a property is kept by each of them. -/
structure Stable (P : Session → Prop) : Prop extends Timeless P where
  pop {s : Session} (time : Nat) : P s → P { s with scheduler := (s.scheduler.pop time).1 }
  advanceTo {s : Session} (time : Nat) :
    P s → P { s with scheduler := s.scheduler.advanceTo time }

/-! ## Events -/

theorem run_byBatches (locals : Dict Value) (as : List Action) : ByBatches (Action.run locals as) :=
  Action.run_reaches locals as

theorem resume_byBatches (c : Continuation) : ByBatches c.resume := c.resume_reaches

theorem writeField_reaches (var : String) (value : Value) (t : Trace) :
    t.Reaches (lastTrace id (writeField var value t)) := by
  unfold writeField
  split
  · rename_i hset
    exact .batch (.refl t) hset
  · exact .refl t

theorem field_byBatches (b : Page.InputBinding) (value : Value) (locals : Dict Value)
    (as : List Action) :
    ByBatches (fun t => do Action.run locals as (← writeField b.var (fieldValue b value) t)) :=
  fun t => (writeField_reaches b.var _ t).bind fun u _ => Action.run_reaches locals as u

namespace Timeless

variable {P : Session → Prop} (hP : Timeless P) {s : Session}
include hP

theorem dispatch (hs : P s) (island : String) (kind : EventKind) (index : Nat) :
    P (s.dispatch island kind index).1 := by
  unfold Session.dispatch
  split
  · exact hs
  · split
    · exact hs
    · exact hP.fire island hs (run_byBatches _ _)

theorem change (hs : P s) (island : String) (index : Nat) (value : Value) :
    P (s.change island index value).1 := by
  unfold Session.change
  split
  · exact hs
  · split
    · exact hP.fire island hs (field_byBatches _ _ _ _)
    · exact hs

/-! ## Jobs -/

theorem runJob (hs : P s) (island : String) (job : Job) : P (s.runJob island job).1 := by
  cases job with
  | interval index =>
    show P (s.tick island index).1
    unfold tick
    split
    · exact hs
    · exact hP.fire island hs (run_byBatches _ _)
  | resume c =>
    unfold Session.runJob
    by_cases h : Dict.contains s.mounted island = true
    · simpa only [if_pos h] using hP.fire island hs (resume_byBatches c)
    · simpa only [if_neg h] using hs

/-! ## Islands that come and go -/

theorem unmount (hs : P s) (ids : List String) : P (s.unmount ids).1 := by
  have hall : ∀ sr : Session × CleanupReport, P sr.1 →
      P (ids.foldl (fun sr id => Session.unmountOne sr.1 sr.2 id) sr).1 := by
    induction ids with
    | nil => exact fun sr h => h
    | cons id ids ih => exact fun sr h => ih _ (hP.unmountOne sr.2 id h)
  exact hP.dropStores (hall (s, {}) hs)

theorem cleanupIn (hs : P s) (containerId : String) : P (s.cleanupIn containerId).1 := by
  unfold Session.cleanupIn
  split
  · exact hs
  · exact hP.unmount hs _

theorem fireMounts (hs : P s) (island : String) (places : List Nat) :
    P (s.fireMounts island places) := by
  unfold Session.fireMounts
  induction places generalizing s with
  | nil => exact hs
  | cons i places ih => exact ih (hP.dispatch hs island .mount i)

end Timeless

theorem ensureStore_eq_ok {s s' : Session} {template : String} {resident : Resident} {store : Store}
    (h : s.ensureStore template resident = .ok (s', store)) :
    s' = s ∧ Dict.get? s.stores template = some store ∨
      Dict.get? s.stores template = none ∧ ∃ t, s.newStore t resident = .ok store ∧
        s' = { s with stores := Dict.insert s.stores template store } := by
  unfold ensureStore at h
  split at h
  · rename_i hstore
    obtain ⟨rfl, rfl⟩ := Prod.mk.inj (Except.ok.inj h)
    exact .inl ⟨rfl, hstore⟩
  · rename_i hnone
    split at h
    · contradiction
    · split at h
      · rename_i hnew
        obtain ⟨rfl, rfl⟩ := Prod.mk.inj (Except.ok.inj h)
        exact .inr ⟨hnone, _, hnew, rfl⟩
      · contradiction

/-- A component shows its own content, or else a rendering of its template's store, which is there
by then. -/
theorem opening_cases {s s' : Session} {resident : Resident} {island : Island}
    {c : MountedComponent} {o : Opening} (h : s.opening resident island c = .ok (s', o)) :
    s' = s ∧ (∃ html, o = { html }) ∨
      ∃ store, s.ensureStore island.templateId resident = .ok (s', store) ∧
        o = s'.openingFrom store island := by
  unfold opening at h
  split at h
  · obtain ⟨rfl, rfl⟩ := Prod.mk.inj (Except.ok.inj h)
    exact .inl ⟨rfl, _, rfl⟩
  · obtain ⟨⟨t, store⟩, hensure, ho⟩ := bind_eq_ok.1 h
    obtain ⟨rfl, rfl⟩ := Prod.mk.inj (Except.ok.inj ho)
    refine .inr ⟨store, hensure, ?_⟩
    rcases ensureStore_eq_ok hensure with ⟨rfl, -⟩ | ⟨-, _, -, rfl⟩ <;> rfl

/-- To open an island makes sure of the store of its template, if it needs one. -/
theorem opening_eq_ok {s s' : Session} {resident : Resident} {island : Island}
    {c : MountedComponent} {o : Opening} (h : s.opening resident island c = .ok (s', o)) :
    s'.Opens island o ∧
      (s' = s ∨ ∃ store, s.ensureStore island.templateId resident = .ok (s', store)) := by
  rcases opening_cases h with ⟨rfl, hcontent⟩ | ⟨store, hensure, rfl⟩
  · exact ⟨.inl hcontent, .inl rfl⟩
  · refine ⟨.inr ⟨store, ?_, rfl⟩, .inr ⟨store, hensure⟩⟩
    rcases ensureStore_eq_ok hensure with ⟨rfl, hstore⟩ | ⟨-, t, -, rfl⟩
    · exact hstore
    · exact Dict.get?_insert_self _ _ _

/-- An island that fails to mount leaves the session as it is, and the error is its own. -/
theorem mount_eq_error {s s' : Session} {p : Pass} {island : Island} {placeholder : NodeId}
    {e : HydrationError} (h : s.mount p island placeholder = (s', .error e)) :
    s' = s ∧ e.island? = some island.id := by
  unfold mount at h
  dsimp only at h
  split at h
  · obtain ⟨rfl, he⟩ := Prod.mk.inj h
    exact ⟨rfl, Except.error.inj he ▸ rfl⟩
  · split at h
    · obtain ⟨rfl, he⟩ := Prod.mk.inj h
      exact ⟨rfl, Except.error.inj he ▸ rfl⟩
    · obtain ⟨rfl, he⟩ := Prod.mk.inj h
      exact ⟨rfl, Except.error.inj he ▸ rfl⟩
    · split at h
      · obtain ⟨rfl, he⟩ := Prod.mk.inj h
        exact ⟨rfl, Except.error.inj he ▸ rfl⟩
      · cases (congrArg Prod.snd h :)

theorem fail_eq (s : Session) (placeholder : NodeId) (e : HydrationError) :
    ∃ document, s.fail placeholder e = { s with document } := by
  unfold fail
  dsimp only
  split
  · exact ⟨_, rfl⟩
  · exact ⟨_, rfl⟩

namespace Timeless

variable {P : Session → Prop} (hP : Timeless P) {s : Session}
include hP

theorem mount (hs : P s) (p : Pass) (island : Island) {placeholder : NodeId}
    (htaken : s.document.attr? placeholder Hydration.stateAttr = some State.hydrating.name) :
    P (s.mount p island placeholder).1 := by
  unfold Session.mount
  dsimp only
  split
  · exact hs
  · rename_i hfree
    have hnone : Dict.get? s.mounted island.id = none := by
      simpa [Dict.contains] using hfree
    split
    · exact hs
    · exact hs
    · split
      · exact hs
      · rename_i c _ s' o hopen
        obtain ⟨hopens, hfrom⟩ := opening_eq_ok hopen
        refine hP.fireMounts ?_ _ _
        rcases hfrom with rfl | ⟨store, hensure⟩
        · exact hP.settle hs htaken hnone hopens
        · have hs' := hP.ensure hs hensure
          rcases ensureStore_eq_ok hensure with ⟨rfl, -⟩ | ⟨-, t, -, rfl⟩
          · exact hP.settle hs' htaken hnone hopens
          · exact hP.settle hs' htaken hnone hopens

theorem hydrateOne (hs : P s) (p : Pass) (r : HydrationResult) (placeholder : NodeId) :
    P (Session.hydrateOne p s r placeholder).1 := by
  unfold Session.hydrateOne
  split
  · exact hs
  · rename_i id hid
    split
    · exact hs
    · rename_i island _
      split
      · rename_i hfree
        have hs' := hP.take hs hid hfree
        obtain ⟨_, _, helement⟩ := Document.hasElement_of_attr? hid
        have htaken : (s.document.setAttr placeholder Hydration.stateAttr
            State.hydrating.name).attr? placeholder Hydration.stateAttr =
              some State.hydrating.name := by
          rw [helement.attr?_setAttr, if_pos rfl]
        have hm := hP.mount hs' p island htaken
        dsimp only
        split
        · rename_i s' hmount
          rw [hmount] at hm
          exact hP.record _ _ hm
        · rename_i s' e hmount
          obtain ⟨rfl, -⟩ := mount_eq_error hmount
          exact hP.record _ _ (hP.fail e hs' htaken)
      · exact hs

theorem hydrate (hs : P s) (containerId : String) (resident : Resident) (islands : List Island)
    (time : String) : P (s.hydrate containerId resident islands time).1 := by
  unfold Session.hydrate
  split
  · exact hs
  · rename_i container _
    have hall : ∀ p (placeholders : List NodeId) (sr : Session × HydrationResult), P sr.1 →
        P (placeholders.foldl (fun sr n => Session.hydrateOne p sr.1 sr.2 n) sr).1 := by
      intro p placeholders
      induction placeholders with
      | nil => exact fun sr h => h
      | cons n placeholders ih => exact fun sr h => ih _ (hP.hydrateOne h p sr.2 n)
    exact hall _ _ (s, {}) hs

/-- Every call but the one that lets time pass. -/
theorem call (hs : P s) {c : Call} (hc : ∀ ms, c ≠ .advance ms) : P (s.call c) := by
  cases c with
  | load t scope => exact hP.load t scope hs
  | hydrate containerId resident islands time =>
    exact hP.hydrate hs containerId resident islands time
  | dispatch island kind index => exact hP.dispatch hs island kind index
  | change island index value => exact hP.change hs island index value
  | advance ms => exact absurd rfl (hc ms)
  | cleanup => exact hP.unmount hs _
  | cleanupIn containerId => exact hP.cleanupIn hs containerId

end Timeless

/-! ## Runs -/

namespace Stable

variable {P : Session → Prop} (hP : Stable P) {s : Session}
include hP

theorem runDue (hs : P s) (time : Nat) (r : TickReport) : P (runDue time s r).1 := by
  fun_induction Session.runDue time s r with
  | case1 s r scheduler hpop =>
    have := hP.pop time hs
    rwa [hpop] at this
  | case2 s r scheduler timer hpop next r' h ih =>
    refine ih (hP.runJob ?_ _ _)
    have := hP.pop time hs
    rwa [hpop] at this
  | case3 s r scheduler timer hpop next r' h =>
    refine hP.runJob ?_ _ _
    have := hP.pop time hs
    rwa [hpop] at this

theorem advance (hs : P s) (ms : Nat) : P (s.advance ms).1 :=
  hP.advanceTo _ (hP.runDue hs _ _)

theorem call (hs : P s) (c : Call) : P (s.call c) := by
  by_cases hc : ∃ ms, c = .advance ms
  · obtain ⟨ms, rfl⟩ := hc
    exact hP.advance hs ms
  · exact hP.toTimeless.call hs fun ms h => hc ⟨ms, h⟩

/-- What every step keeps holds after any run of calls. -/
theorem run (hs : P s) (calls : List Call) : P (s.run calls) := by
  induction calls generalizing s with
  | nil => exact hs
  | cons c calls ih => exact ih (hP.call hs c)

end Stable

end Session

end Archipelago
