import Archipelago.Proofs.Document.Twin
import Archipelago.Proofs.Session.States

/-!
# Sessions side by side

A pass over the places of a container, next to one that is not given some of the islands. The two
sessions are the same but for the places of these islands and for the record of their attempts, and
what the other islands do keeps them so.
-/

namespace Archipelago

open Hydration (MountedComponent MountError State)

/-! ## Islands that are refused -/

/-- What an island fails with that the registry does not mount. -/
def Hydration.MountError.of (island : Island) : MountError → HydrationError
  | .notFound component => .componentNotFound island.id component
  | .failed message => .mountThrew island.id island.component message

theorem Hydration.MountError.island?_of (e : MountError) (island : Island) :
    (e.of island).island? = some island.id := by
  cases e with
  | notFound component => rfl
  | failed message => rfl

/-- Does the error belong to one of the islands? -/
def HydrationError.concerns (ids : List String) (e : HydrationError) : Bool :=
  e.island?.any (· ∈ ids)

theorem HydrationError.concerns_eq {e : HydrationError} {id : String} (h : e.island? = some id)
    (ids : List String) : e.concerns ids = decide (id ∈ ids) := by
  unfold concerns
  rw [h]
  rfl

namespace Session

theorem stateAttr_ne : Hydration.stateAttr ≠ Page.islandAttr := by decide

theorem timeAttr_ne : Hydration.timeAttr ≠ Page.islandAttr := by decide

/-- How a free placeholder fails that is one of the islands which are refused. -/
def refusal? (s : Session) (p : Pass) (refused : List String) (n : NodeId) :
    Option HydrationError :=
  ((s.document.attr? n Page.islandAttr).filter (· ∈ refused)).bind fun id =>
    (Dict.get? p.islands id).bind fun island =>
      if (State.ofAttr (s.document.attr? n Hydration.stateAttr)).isFree then
        match s.registry.mount island p.resident.toValue with
        | .error e => some (e.of island)
        | .ok _ => none
      else none

theorem refusal?_of_mem {s : Session} {refused : List String} {n : NodeId} {id : String}
    (hid : s.document.attr? n Page.islandAttr = some id) (hin : id ∈ refused) (p : Pass) :
    s.refusal? p refused n = (Dict.get? p.islands id).bind fun island =>
      if (State.ofAttr (s.document.attr? n Hydration.stateAttr)).isFree then
        match s.registry.mount island p.resident.toValue with
        | .error e => some (e.of island)
        | .ok _ => none
      else none := by
  unfold refusal?
  rw [hid, Option.filter_some_pos (by simpa using hin)]
  rfl

/-- An island that the registry refuses is not mounted, and nothing else happens. -/
theorem mount_refused {s : Session} {p : Pass} {island : Island} {e : MountError}
    (hnone : Dict.get? s.mounted island.id = none)
    (he : s.registry.mount island p.resident.toValue = .error e) (n : NodeId) :
    s.mount p island n = (s, .error (e.of island)) := by
  unfold mount
  dsimp only
  rw [if_neg (by simp [Dict.contains, hnone]), he]
  cases e with
  | notFound component => rfl
  | failed message => rfl

theorem fail_of_unmounted {s : Session} {n : NodeId} (h : ∀ e ∈ s.mounted, e.2.placeholder ≠ n)
    (e : HydrationError) :
    s.fail n e = { s with
      document := (s.document.setAttr n Hydration.stateAttr State.failed.name).setInnerHtml n
        (s.fallbackHtml e) } := by
  unfold fail
  dsimp only
  rw [if_neg]
  intro hany
  obtain ⟨x, hx, hplace⟩ := List.any_eq_true.1 hany
  exact h x hx (of_decide_eq_true hplace)

/-! ## Sessions side by side -/

/-- A pass over the places of a container, and some of its islands that are left out in another
one. -/
structure Trial where
  start : Session
  pass : Pass
  refused : List String

namespace Trial

variable (c : Trial)

/-- The pass without the islands that are refused. -/
def rest : Pass := { c.pass with islands := c.pass.islands.filter fun e => e.1 ∉ c.refused }

/-- The places that a pass goes through. -/
def places : List NodeId := c.start.document.placeholders c.pass.container

/-- The trial of some of the islands that a container is hydrated with. -/
def ofIslands (s : Session) (container : NodeId) (resident : Resident) (islands : List Island)
    (time : String) (refused : List String) : Trial :=
  ⟨s, ⟨container, resident, Dict.ofList (islands.map fun i => (i.id, i)), time⟩, refused⟩

theorem rest_ofIslands (s : Session) (container : NodeId) (resident : Resident)
    (islands : List Island) (time : String) (refused : List String) :
    (ofIslands s container resident islands time refused).rest =
      ⟨container, resident,
        Dict.ofList ((islands.filter (·.id ∉ refused)).map fun i => (i.id, i)), time⟩ := by
  have hislands := Dict.filter_ofList (fun id => decide (id ∉ refused))
    (islands.map fun i => (i.id, i))
  rw [List.filter_map] at hislands
  exact congrArg (Pass.mk container resident · time) hislands

theorem get?_rest (id : String) : Dict.get? c.rest.islands id =
    if id ∉ c.refused then Dict.get? c.pass.islands id else none :=
  (Dict.get?_filter_key c.pass.islands (fun name => decide (name ∉ c.refused)) id).trans
    (if_congr decide_eq_true_iff rfl rfl)

/-- The registry mounts none of the islands that are left out. -/
def Refuses : Prop :=
  ∀ id ∈ c.refused, ∀ island, Dict.get? c.pass.islands id = some island →
    ∃ e, c.start.registry.mount island c.pass.resident.toValue = .error e

/-- A node that holds the place of an island that is refused. -/
def Barred (n : NodeId) : Prop :=
  ∃ id ∈ c.refused, c.start.document.attr? n Page.islandAttr = some id

variable {c} in
/-- A place that is not barred has nothing refused. -/
theorem refusal?_eq_none {n : NodeId} (h : ¬c.Barred n) :
    c.start.refusal? c.pass c.refused n = none := by
  refine Option.eq_none_iff_forall_ne_some.2 fun e he => h ?_
  obtain ⟨id, hid, -⟩ := Option.bind_eq_some_iff.1 he
  obtain ⟨hid, hin⟩ := Option.filter_eq_some_iff.1 hid
  exact ⟨id, of_decide_eq_true hin, hid⟩

/-- An island that is not refused, in a place of its own. -/
structure Free (m : Mounted) : Prop where
  island : m.island.id ∉ c.refused
  place : m.placeholder ∈ c.places
  free : ¬c.Barred m.placeholder

/-- The second session is the first one without what has become of the islands that are refused, and
nothing of that is newer than `since`. -/
structure Beside (since : Document) (s s' : Session) : Prop where
  same : ∃ document metrics, s' = { s with document, metrics }
  twin : Document.Twin c.places c.Barred c.start.document since s.document s'.document
  config : s.config = c.start.config
  registry : s.registry = c.start.registry
  housed : ∀ e ∈ s.mounted, e.1 = e.2.island.id ∧ c.Free e.2

variable {c} {since : Document} {s s' : Session}

namespace Beside

/-- A place is one of the same island in all sessions. -/
theorem exists_island (h : c.Beside since s s') {n : NodeId} (hn : n ∈ c.places) :
    ∃ id, c.start.document.attr? n Page.islandAttr = some id ∧
      s.document.attr? n Page.islandAttr = some id ∧
      s'.document.attr? n Page.islandAttr = some id := by
  obtain ⟨id, hid₀, hid⟩ := h.twin.left.named n hn
  obtain ⟨id', hid₀', hid'⟩ := h.twin.right.named n hn
  obtain rfl := Option.some.inj (hid₀.symm.trans hid₀')
  exact ⟨id, hid₀, hid, hid'⟩

/-! ## Events -/

/-- Both sessions render the same island in the same way. -/
theorem rerender (h : c.Beside since s s') (store : Store) {m : Mounted} (hm : c.Free m) :
    c.Beside since (s.rerender store m) (s'.rerender store m) := by
  obtain ⟨timers, hmounted, hdocument, -, hconfig⟩ := rerender_eq s store m
  obtain ⟨-, -, hdocument', -⟩ := rerender_eq s' store m
  obtain ⟨document, metrics, rfl⟩ := h.same
  refine ⟨⟨_, _, rfl⟩, ?_, hconfig.trans h.config, h.registry, fun e he => ?_⟩
  · rw [hdocument, hdocument']
    exact h.twin.setInnerHtml hm.place hm.free
      (Page.Node.htmlAll (s.renderer.renderIsland store.toScope m.island).children)
  · rcases Dict.mem_insert (hmounted ▸ he) with rfl | he
    · exact ⟨rfl, hm.island, hm.place, hm.free⟩
    · exact h.housed e he

/-- Both sessions refresh the same islands, since none of them is refused. -/
theorem refresh (h : c.Beside since s s') (template : String) (store : Store)
    (names : List String) :
    c.Beside since (s.refresh template store names).1 (s'.refresh template store names).1 := by
  have hfree : ∀ m ∈ s.stale template names, c.Free m := by
    intro m hm
    obtain ⟨⟨id, hid⟩, -⟩ := mem_stale hm
    exact (h.housed _ hid).2
  have hstale : s'.stale template names = s.stale template names := by
    obtain ⟨document, metrics, rfl⟩ := h.same
    rfl
  rw [refresh_eq, refresh_eq, hstale]
  clear hstale
  show c.Beside since ((s.stale template names).foldl _ s) ((s.stale template names).foldl _ s')
  generalize s.stale template names = ms at hfree
  induction ms generalizing s s' with
  | nil => exact h
  | cons m ms ih =>
    obtain ⟨hm, hms⟩ := List.forall_mem_cons.1 hfree
    exact ih (h.rerender store hm) hms

theorem rebase (h : c.Beside since s s') : c.Beside s.document s s' :=
  ⟨h.same, h.twin.rebase, h.config, h.registry, h.housed⟩

theorem suspend (h : c.Beside since s s') (m : Mounted) (pending : List Continuation) :
    c.Beside since (s.suspend m pending) (s'.suspend m pending) := by
  obtain ⟨document, metrics, rfl⟩ := h.same
  exact ⟨⟨document, metrics, rfl⟩, h.twin, h.config, h.registry, h.housed⟩

theorem store (h : c.Beside since s s') (template : String) (store : Store)
    (storage : Option Storage) :
    c.Beside since { s with stores := Dict.insert s.stores template store, storage }
      { s' with stores := Dict.insert s'.stores template store, storage } := by
  obtain ⟨document, metrics, rfl⟩ := h.same
  exact ⟨⟨document, metrics, rfl⟩, h.twin, h.config, h.registry, h.housed⟩

/-- An event does the same in both sessions. -/
theorem fire (h : c.Beside since s s') (island : String) (run : Trace → Outcome) :
    c.Beside since (s.fire island run).1 (s'.fire island run).1 := by
  have hstore := h.store
  obtain ⟨document, metrics, rfl⟩ := h.same
  unfold Session.fire
  dsimp only
  cases hm : Dict.get? s.mounted island with
  | none => exact h
  | some m =>
    dsimp only
    cases ht : m.template with
    | none => exact h
    | some template =>
      dsimp only
      cases hst : Dict.get? s.stores template with
      | none => exact h
      | some st =>
        dsimp only
        cases run { store := st } with
        | ok r => exact ((hstore template _ _).refresh template _ _).suspend m r.2
        | error f => exact (hstore template _ _).refresh template _ _

theorem dispatch (h : c.Beside since s s') (island : String) (kind : EventKind) (index : Nat) :
    c.Beside since (s.dispatch island kind index).1 (s'.dispatch island kind index).1 := by
  have hfire := h.fire island
  obtain ⟨document, metrics, rfl⟩ := h.same
  unfold Session.dispatch
  dsimp only
  cases hm : Dict.get? s.mounted island with
  | none => exact h
  | some m =>
    dsimp only
    cases handler? m index fun h => h.kind = kind && h.input.isNone with
    | none => exact h
    | some handler => exact hfire _

theorem fireMounts (h : c.Beside since s s') (island : String) (handlers : List Nat) :
    c.Beside since (s.fireMounts island handlers) (s'.fireMounts island handlers) := by
  unfold Session.fireMounts
  induction handlers generalizing s s' with
  | nil => exact h
  | cons i handlers ih => exact ih (h.dispatch island .mount i)

/-! ## Places that are not barred -/

/-- A place that is not barred is claimed in both. -/
theorem claim (h : c.Beside since s s') {n : NodeId} (hn : n ∈ c.places) (hfree : ¬c.Barred n) :
    c.Beside since (s.claim n) (s'.claim n) := by
  have htwin := h.twin.setAttr hn hfree stateAttr_ne State.hydrating.name
  obtain ⟨document, metrics, rfl⟩ := h.same
  exact ⟨⟨_, metrics, rfl⟩, htwin, h.config, h.registry, h.housed⟩

theorem record (h : c.Beside since s s') (island : Island) (outcome : HydrationOutcome) :
    c.Beside since (s.record island outcome) (s'.record island outcome) := by
  obtain ⟨document, metrics, rfl⟩ := h.same
  exact ⟨⟨document, _, rfl⟩, h.twin, h.config, h.registry, h.housed⟩

theorem fail (h : c.Beside since s s') {n : NodeId} (hn : n ∈ c.places) (hfree : ¬c.Barred n)
    (e : HydrationError) : c.Beside since (s.fail n e) (s'.fail n e) := by
  have htwin := h.twin.setAttr hn hfree stateAttr_ne State.failed.name
  obtain ⟨document, metrics, rfl⟩ := h.same
  unfold Session.fail
  dsimp only
  split
  · exact ⟨⟨_, metrics, rfl⟩, htwin, h.config, h.registry, h.housed⟩
  · exact ⟨⟨_, metrics, rfl⟩, htwin.setInnerHtml hn hfree _, h.config, h.registry, h.housed⟩

/-- An island settles in the same way in both. -/
theorem settle (h : c.Beside since s s') {n : NodeId} (hn : n ∈ c.places) (hfree : ¬c.Barred n)
    {island : Island} (hid : island.id ∉ c.refused) (component : MountedComponent) (o : Opening) :
    c.Beside since (s.settle c.pass island n component o)
      (s'.settle c.rest island n component o) := by
  obtain ⟨timers, hmounted, hdocument, -, hconfig⟩ := settle_eq s c.pass island n component o
  have htwin := ((h.twin.setInnerHtml hn hfree o.html).setAttr hn hfree stateAttr_ne
    State.hydrated.name).setAttr hn hfree timeAttr_ne c.pass.time
  obtain ⟨document, metrics, rfl⟩ := h.same
  refine ⟨⟨_, metrics, rfl⟩, htwin, h.config, h.registry, fun e he => ?_⟩
  rcases Dict.mem_insert (hmounted ▸ he) with rfl | he
  · exact ⟨rfl, hid, hn, hfree⟩
  · exact h.housed e he

theorem opening (h : c.Beside since s s') (island : Island) (component : MountedComponent) :
    (∃ message, s.opening c.pass.resident island component = .error message ∧
        s'.opening c.pass.resident island component = .error message) ∨
      ∃ t t' o, s.opening c.pass.resident island component = .ok (t, o) ∧
        s'.opening c.pass.resident island component = .ok (t', o) ∧ c.Beside since t t' := by
  have hstore := h.store
  obtain ⟨document, metrics, rfl⟩ := h.same
  unfold Session.opening
  cases component.content with
  | some html => exact .inr ⟨s, _, _, rfl, rfl, h⟩
  | none =>
    dsimp only
    unfold ensureStore
    dsimp only
    cases Dict.get? s.stores island.templateId with
    | some store => exact .inr ⟨s, _, _, rfl, rfl, h⟩
    | none =>
      dsimp only
      cases Dict.get? s.templates island.templateId with
      | none => exact .inl ⟨_, rfl, rfl⟩
      | some t =>
        dsimp only
        have hnew : newStore { s with document, metrics } t c.pass.resident =
            s.newStore t c.pass.resident := rfl
        rw [hnew]
        cases s.newStore t c.pass.resident with
        | error e => exact .inl ⟨_, rfl, rfl⟩
        | ok store => exact .inr ⟨_, _, _, rfl, rfl, hstore island.templateId store s.storage⟩

/-- An island that is not refused is mounted in both or in neither. -/
theorem mount (h : c.Beside since s s') {n : NodeId} (hn : n ∈ c.places) (hfree : ¬c.Barred n)
    {island : Island} (hid : island.id ∉ c.refused) :
    c.Beside since (s.mount c.pass island n).1 (s'.mount c.rest island n).1 ∧
      (s'.mount c.rest island n).2 = (s.mount c.pass island n).2 := by
  have hmounted : s'.mounted = s.mounted := by
    obtain ⟨document, metrics, rfl⟩ := h.same
    rfl
  have hregistry : s'.registry = s.registry := by
    obtain ⟨document, metrics, rfl⟩ := h.same
    rfl
  unfold Session.mount
  dsimp only
  rw [hmounted, hregistry, show c.rest.resident = c.pass.resident from rfl]
  by_cases htaken : Dict.contains s.mounted island.id = true
  · rw [if_pos htaken, if_pos htaken]
    exact ⟨h, rfl⟩
  · rw [if_neg htaken, if_neg htaken]
    cases s.registry.mount island c.pass.resident.toValue with
    | error e =>
      cases e with
      | notFound name => exact ⟨h, rfl⟩
      | failed message => exact ⟨h, rfl⟩
    | ok component =>
      dsimp only
      rcases h.opening island component with ⟨message, hs, hs'⟩ | ⟨t, t', o, hs, hs', ht⟩
      · rw [hs, hs']
        exact ⟨h, rfl⟩
      · rw [hs, hs']
        exact ⟨(ht.settle hn hfree hid component o).fireMounts _ _, rfl⟩

/-! ## Places that are barred -/

/-- No island that is refused is mounted. -/
theorem get?_mounted (h : c.Beside since s s') {id : String} (hid : id ∈ c.refused) :
    Dict.get? s.mounted id = none := by
  refine Dict.get?_eq_none_iff.2 fun hmem => ?_
  obtain ⟨x, hx, hkey⟩ := List.mem_map.1 hmem
  obtain ⟨hnamed, hfree⟩ := h.housed x hx
  exact hfree.island (hnamed ▸ hkey ▸ hid)

/-- A place that is barred fails in the first session, and nothing else happens to any place. -/
theorem refuse (h : c.Beside since s s') {n : NodeId} (hn : n ∈ c.places) (hbarred : c.Barred n)
    {id : String} (hvacant : s.Vacant n id) (e : HydrationError) (island : Island) :
    c.Beside (((s.claim n).fail n e).record island .failed).document
        (((s.claim n).fail n e).record island .failed) s' ∧
      Document.Keeps n s.document (((s.claim n).fail n e).record island .failed).document ∧
      (((s.claim n).fail n e).record island .failed).document.attr? n Hydration.stateAttr =
        some State.failed.name ∧
      (((s.claim n).fail n e).record island .failed).document.Shows n (c.start.fallbackHtml e) := by
  have hfail := fail_of_unmounted (s := s.claim n) (n := n)
    (fun x hx hplace => (h.housed x hx).2.free (hplace ▸ hbarred)) e
  have hfallback : (s.claim n).fallbackHtml e = c.start.fallbackHtml e := by
    unfold fallbackHtml
    rw [show (s.claim n).config = c.start.config from h.config]
  obtain ⟨hstate, -⟩ := attr?_fail hvacant e
  rw [hfail, hfallback] at hstate ⊢
  have hclaimed := h.twin.left.setAttr hn stateAttr_ne State.hydrating.name
  have hmarked := hclaimed.setAttr hn stateAttr_ne State.failed.name
  obtain ⟨_, -, hname⟩ := hmarked.named n hn
  obtain ⟨_, _, helement⟩ := Document.hasElement_of_attr? hname
  have hkeeps := ((Document.keeps_setAttr s.document n Hydration.stateAttr
    State.hydrating.name).trans (Document.keeps_setAttr _ n Hydration.stateAttr
      State.failed.name)).trans (Document.keeps_setInnerHtml _ n (c.start.fallbackHtml e))
  have htwin := h.twin.one hbarred hkeeps (hmarked.setInnerHtml hn _)
  obtain ⟨document, metrics, rfl⟩ := h.same
  exact ⟨⟨⟨document, metrics, rfl⟩, htwin, h.config, h.registry, h.housed⟩, hkeeps, hstate,
    (helement.setInnerHtml _).1⟩

end Beside

end Trial

end Session

end Archipelago
