import Archipelago.Proofs.Page.Choices
import Archipelago.Proofs.Session.States
import Archipelago.Proofs.Session.Ticks

/-!
# Mount handlers

When an island has come to life, the places of its mount handlers are gone through, and whatever
mount handler stands in a place by then is fired. A firing may render the island anew, and the
rendering may have another handler in the place, or none. So the handlers of the first rendering are
fired, each of them once, if and only if each of them stands in its place when its turn comes.
-/

namespace Archipelago

open Hydration (MountedComponent)
open Page (Handler Renderer)

namespace Session

/-- What a handler does when it is fired. -/
structure Work where
  actions : List Action
  locals : Dict Value

/-- What the mount handlers do, with their places. -/
def mounts (handlers : List Handler) : List (Nat × Work) :=
  handlers.zipIdx.filterMap fun (h, i) =>
    if h.kind = .mount then some (i, ⟨h.actions, h.locals⟩) else none

/-- What the mount handler does that stands in a place of an island now. -/
def mountAt? (s : Session) (island : String) (place : Nat) : Option Work :=
  ((Dict.get? s.mounted island).bind fun m =>
    handler? m place fun h => h.kind = .mount && h.input.isNone).map fun h => ⟨h.actions, h.locals⟩

/-- Does some work for an island, whatever becomes of it. -/
def perform (s : Session) (island : String) (w : Work) : Session :=
  (s.fire island (Action.run w.locals w.actions)).1

/-- Does one work after the other. -/
def performEach (s : Session) (island : String) (ws : List Work) : Session :=
  ws.foldl (fun s w => s.perform island w) s

/-- What is fired when places are gone through: in each of them what stands there by then. -/
def fired (s : Session) (island : String) : List Nat → List Work
  | [] => []
  | place :: places =>
    match s.mountAt? island place with
    | some w => w :: (s.perform island w).fired island places
    | none => s.fired island places

/-- Each handler stands in its place when those in front of it have been fired. -/
def Stands (s : Session) (island : String) : List (Nat × Work) → Prop
  | [] => True
  | (place, w) :: rest =>
    s.mountAt? island place = some w ∧ (s.perform island w).Stands island rest

/-! ## Going through the places -/

theorem dispatch_mount (s : Session) (island : String) (place : Nat) :
    (s.dispatch island .mount place).1 = match s.mountAt? island place with
      | some w => s.perform island w
      | none => s := by
  unfold dispatch mountAt?
  cases Dict.get? s.mounted island with
  | none => rfl
  | some m =>
    dsimp only [Option.bind_some]
    cases handler? m place fun h => h.kind = .mount && h.input.isNone with
    | none => rfl
    | some h => rfl

/-- To go through the places is to do the work that is found there, each once and in order. -/
theorem fireMounts_eq (s : Session) (island : String) (places : List Nat) :
    s.fireMounts island places = s.performEach island (s.fired island places) := by
  induction places generalizing s with
  | nil => rfl
  | cons place places ih =>
    show (s.dispatch island .mount place).1.fireMounts island places = _
    rw [dispatch_mount, fired]
    cases s.mountAt? island place with
    | none => exact ih s
    | some w => exact ih (s.perform island w)

theorem length_fired_le (s : Session) (island : String) (places : List Nat) :
    (s.fired island places).length ≤ places.length := by
  induction places generalizing s with
  | nil => exact Nat.le_refl _
  | cons place places ih =>
    unfold fired
    split
    · exact Nat.succ_le_succ (ih _)
    · exact Nat.le_succ_of_le (ih s)

/-- The handlers themselves are fired, all of them and no others, if and only if each of them stands
in its place in time. A place that is passed over leaves too few places for the rest. -/
theorem fired_eq_iff (s : Session) (island : String) (ws : List (Nat × Work)) :
    s.fired island (ws.map (·.1)) = ws.map (·.2) ↔ s.Stands island ws := by
  induction ws generalizing s with
  | nil => exact ⟨fun _ => trivial, fun _ => rfl⟩
  | cons x ws ih =>
    obtain ⟨place, w⟩ := x
    rw [List.map_cons, List.map_cons, fired, Stands]
    cases hw : s.mountAt? island place with
    | none =>
      refine ⟨fun he => ?_, fun h => absurd h.1 (Option.some_ne_none _).symm⟩
      have hlength := s.length_fired_le island (ws.map (·.1))
      replace he : s.fired island (ws.map (·.1)) = w :: ws.map (·.2) := he
      rw [he] at hlength
      simp at hlength
    | some w' =>
      rw [List.cons.injEq, Option.some.injEq]
      constructor
      · rintro ⟨rfl, hrest⟩
        exact ⟨rfl, (ih _).1 hrest⟩
      · rintro ⟨rfl, hrest⟩
        exact ⟨rfl, (ih _).2 hrest⟩

theorem places_mounts (handlers : List Handler) :
    (mounts handlers).map (·.1) = handlersOf .mount handlers := by
  unfold mounts handlersOf
  rw [List.map_filterMap]
  refine List.filterMap_congr fun x _ => ?_
  obtain ⟨h, i⟩ := x
  dsimp only
  split
  · rfl
  · rfl

/-- A mount handler of an island is found in its place. -/
theorem mountAt?_of_mem {s : Session} {island : String} {m : Mounted}
    (hm : Dict.get? s.mounted island = some m)
    (hinput : ∀ h ∈ m.handlers, h.kind = .mount → h.input = none) {x : Nat × Work}
    (hx : x ∈ mounts m.handlers) : s.mountAt? island x.1 = some x.2 := by
  obtain ⟨⟨h, i⟩, hmem, hsome⟩ := List.mem_filterMap.1 hx
  dsimp only at hsome
  split at hsome
  · rename_i hk
    obtain rfl := Option.some.inj hsome
    obtain ⟨hi, hget⟩ := List.mem_zipIdx' hmem
    have hnone : h.input = none := hinput h (hget ▸ List.getElem_mem _) hk
    have hplace : m.handlers[i]? = some h := by rw [List.getElem?_eq_getElem hi, hget]
    simp [mountAt?, hm, handler?, hplace, hk, hnone]
  · cases hsome

/-- A mount handler that is drawn belongs to no field. -/
theorem Draws.input_eq_none {s : Session} {i : Island} {handlers : List Handler}
    (h : s.Draws i handlers) : ∀ x ∈ handlers, x.kind = .mount → x.input = none := by
  obtain ⟨store, rfl⟩ := h
  intro x hx hk
  obtain ⟨v, n, -, hmakes⟩ := (s.renderer.draw_only true store.toScope i.node).handlers x hx
  obtain ⟨b, -, rfl⟩ := hmakes.of_binding (by rw [hk]; decide) (by rw [hk]; decide)
  rfl

end Session

open Session (mounts)

/-- All renderings of the island have the same mount handlers in the same places. -/
def Island.Settled (r : Renderer) (i : Island) : Prop :=
  ∀ a b : Store, mounts (r.renderIsland a.toScope i).handlers =
    mounts (r.renderIsland b.toScope i).handlers

theorem Island.settled_of_fixed {r : Renderer} {i : Island}
    (h : ∀ n ∈ i.node.walk, n.chooses = false) : i.Settled r :=
  fun a b => congrArg mounts (r.handlers_of_fixed h a.toScope b.toScope)

namespace Session

/-! ## Islands that come to life -/

namespace Timed

variable {s : Session}

/-- An island that has handlers is driven by a template, and a rendering of it has them. -/
theorem drawn (h : s.Timed) {id : String} {m : Mounted} (hm : Dict.get? s.mounted id = some m)
    {x : Handler} (hx : x ∈ m.handlers) : m.template ≠ none ∧ s.Draws m.island m.handlers := by
  have ht : m.template ≠ none := fun ht => by
    rw [h.idle id m hm ht] at hx
    cases hx
  obtain ⟨shown, hruns⟩ := h.runs id m hm
  exact ⟨ht, (hruns.drawn ht).2⟩

theorem mountAt?_eq (h : s.Timed) {id : String} {m : Mounted} (hm : Dict.get? s.mounted id = some m)
    {x : Nat × Work} (hx : x ∈ mounts m.handlers) : s.mountAt? id x.1 = some x.2 :=
  mountAt?_of_mem hm (fun y hy => (h.drawn hm hy).2.input_eq_none y hy) hx

/-- The island stays, and what it draws is drawn by the same renderer. -/
theorem perform (h : s.Timed) {id : String} {m : Mounted} (hm : Dict.get? s.mounted id = some m)
    (w : Work) : (s.perform id w).Timed ∧ (s.perform id w).config = s.config ∧
      ∃ m', Dict.get? (s.perform id w).mounted id = some m' ∧ m'.bare = m.bare := by
  refine ⟨h.fire id (run_byBatches _ _), (config_stable s.config).fire id rfl (run_byBatches _ _),
    ?_⟩
  exact (Unmoved.fire h.toSound id (run_byBatches _ _)).exists_bare hm

/-- Handlers that every rendering has in their places stand there in time. -/
theorem stands (h : s.Timed) {id : String} {m : Mounted} (hm : Dict.get? s.mounted id = some m)
    (hsettled : m.island.Settled s.renderer) {ws : List (Nat × Work)}
    (hws : ws ⊆ mounts m.handlers) :
    s.Stands id ws := by
  induction ws generalizing s m with
  | nil => trivial
  | cons x ws ih =>
    obtain ⟨hx, hws⟩ := List.cons_subset.1 hws
    refine ⟨h.mountAt?_eq hm hx, ?_⟩
    obtain ⟨y, hy, -⟩ := List.mem_filterMap.1 hx
    obtain ⟨htemplate, store, hdrawn⟩ := h.drawn hm (List.fst_mem_of_mem_zipIdx hy)
    obtain ⟨htimed, hconfig, m', hm', hbare⟩ := h.perform hm x.2
    have hisland : m'.island = m.island := (congrArg Mounted.island hbare :)
    have htemplate' : m'.template ≠ none :=
      fun ht => htemplate ((congrArg Mounted.template hbare :).symm.trans ht)
    have hrenderer : (s.perform id x.2).renderer = s.renderer := by rw [renderer, hconfig, renderer]
    refine ih htimed hm' (hrenderer ▸ hisland ▸ hsettled) ?_
    obtain ⟨shown, hruns⟩ := htimed.runs id m' hm'
    obtain ⟨store', hdrawn'⟩ := (hruns.drawn htemplate').2
    rw [hrenderer, hisland] at hdrawn'
    rw [hdrawn', ← hsettled store store', ← hdrawn]
    exact hws

end Timed

/-- The session that an island has come into, before any of its mount handlers is fired, and what
the island shows. -/
def entered? (s : Session) (p : Pass) (island : Island) (placeholder : NodeId) :
    Option (Session × Opening) := do
  let c ← (s.registry.mount island p.resident.toValue).toOption
  let (s₁, o) ← (s.opening p.resident island c).toOption
  some (s₁.settle p island placeholder c o, o)

theorem entered?_eq_some {s s₁ : Session} {p : Pass} {island : Island} {placeholder : NodeId}
    {c : MountedComponent} {o : Opening}
    (hregistry : s.registry.mount island p.resident.toValue = .ok c)
    (hopening : s.opening p.resident island c = .ok (s₁, o)) :
    s.entered? p island placeholder = some (s₁.settle p island placeholder c o, o) := by
  unfold entered?
  rw [hregistry]
  show ((s.opening p.resident island c).toOption.bind fun _ => _) = _
  rw [hopening]
  rfl

/-- An island that comes to life has the mount handlers fired that stand in the places of those of
its first rendering, each of them once and in order, whether those in front of it fail or not. They
are the handlers of the first rendering if and only if each of these stands in its place in time;
this is so if there is but one of them, and if all renderings have the same. -/
theorem mounts_of_mount {start s s' : Session} (hstart : start.Unhydrated)
    (hsch : start.scheduler = {}) (h : start.Arises s) {p : Pass} {island : Island}
    {placeholder : NodeId} (hvacant : s.Vacant placeholder island.id)
    (hmount : (s.claim placeholder).mount p island placeholder = (s', .ok ())) :
    ∃ fresh o, (s.claim placeholder).entered? p island placeholder = some (fresh, o) ∧
      s' = fresh.performEach island.id (fresh.fired island.id ((mounts o.handlers).map (·.1))) ∧
      (fresh.fired island.id ((mounts o.handlers).map (·.1)) = (mounts o.handlers).map (·.2) ↔
        fresh.Stands island.id (mounts o.handlers)) ∧
      ((mounts o.handlers).length ≤ 1 ∨ island.Settled s.renderer →
        fresh.Stands island.id (mounts o.handlers)) := by
  obtain ⟨hfree, c, s₁, o, hregistry, hopening, rfl⟩ := mount_eq_ok hmount
  refine ⟨_, o, entered?_eq_some hregistry hopening, ?_, fired_eq_iff _ _ _, fun hone => ?_⟩
  · rw [fireMounts_eq, places_mounts]
  · have htimed := h Timed timed_stable (hstart.timed hsch)
    have hclaimed : (s.claim placeholder).Timed :=
      timed_stable.take htimed hvacant.island hvacant.free
    obtain ⟨hopens, hkept⟩ := opening_eq_ok hopening
    have hopened : s₁.Timed := by
      rcases hkept with rfl | ⟨store, hensure⟩
      · exact hclaimed
      · exact timed_stable.ensure hclaimed hensure
    obtain ⟨stores, rfl⟩ := opening_keeps hopening
    have hfresh := hopened.settle p c hvacant.attr?_claim hfree hopens
    obtain ⟨timers, hmounted, -, -, hconfig⟩ :=
      settle_eq { s.claim placeholder with stores } p island
      placeholder c o
    have hm := (congrArg (Dict.get? · island.id) hmounted).trans (Dict.get?_insert_self _ _ _)
    rcases hone with hone | hsettled
    · cases hlist : mounts o.handlers with
      | nil => trivial
      | cons x rest =>
        rw [hlist, List.length_cons] at hone
        obtain rfl : rest = [] :=
          List.length_eq_zero_iff.1 (Nat.le_zero.1 (Nat.le_of_succ_le_succ hone))
        have hx : x ∈ mounts o.handlers := hlist ▸ List.mem_cons_self
        exact ⟨hfresh.mountAt?_eq hm hx, trivial⟩
    · refine hfresh.stands hm ?_ (List.Subset.refl _)
      rw [renderer, hconfig]
      exact hsettled

/-! ## Two mount handlers -/

/-- A button that counts on two mounts. -/
def greetMarkup : String :=
  "<Var name=\"n\" type=\"number\" initial=\"0\"/><Button><OnClick><Increment var=\"n\"/></OnClick>"
    ++ "<OnMount><Increment var=\"n\"/></OnMount><OnMount><Increment var=\"n\"/></OnMount></Button>"

/-- A branch that is left on its first mount, and that counts on the second. -/
def leaveMarkup : String :=
  "<Var name=\"a\" type=\"boolean\" initial=\"true\"/>"
    ++ "<Var name=\"n\" type=\"number\" initial=\"0\"/>"
    ++ "<If var=\"a\"><OnMount><Toggle var=\"a\"/></OnMount>"
    ++ "<OnMount><Increment var=\"n\"/></OnMount></If>"

/-- The island of a template, by the name of the place on the page. -/
def guest? (t : Template) : Option Island :=
  t.islands.head?.map fun i => { i with id := "i", templateId := "t" }

/-- A pass that knows one island. -/
def guestPass (i : Island) : Pass := ⟨0, {}, [("i", i)], "12:00"⟩

/-- What is shown of a variable of the template. -/
def shown? (s : Session) (name : String) : Option String :=
  (Dict.get? s.stores "t").bind fun store => (Dict.get? store.vars name).map (·.value.display)

theorem vacant_staged (t : Template) : (staged t).Vacant 1 "i" where
  island := by
    show ((({} : Document).addContainer "root").1.mount 0
      (.fragment [.island "i" "IfChain" []])).attr? 1 Page.islandAttr = some "i"
    decide +kernel
  free := by
    rw [staged_free]
    rfl

/-- Whatever the button shows, both of its handlers are there, and both of them count. -/
theorem mounts_greet :
    ∃ t i s' fresh o, (compile {} greetMarkup).template? = some t ∧ guest? t = some i ∧
      ((staged t).claim 1).mount (guestPass i) i 1 = (s', .ok ()) ∧
      ((staged t).claim 1).entered? (guestPass i) i 1 = some (fresh, o) ∧
      s' = fresh.performEach "i" ((mounts o.handlers).map (·.2)) ∧ s'.shown? "n" = some "2" := by
  have ht : ((compile {} greetMarkup).template?.bind fun t => (guest? t).map fun i =>
      decide (i.id = "i" ∧ (∀ n ∈ i.node.walk, n.chooses = false) ∧
        (((staged t).claim 1).mount (guestPass i) i 1).2.toOption.isSome = true ∧
        (((staged t).claim 1).mount (guestPass i) i 1).1.shown? "n" = some "2")) = some true := by
    decide +kernel
  obtain ⟨t, htemplate, ht⟩ := Option.bind_eq_some_iff.1 ht
  obtain ⟨i, hi, ht⟩ := Option.map_eq_some_iff.1 ht
  obtain ⟨hid, hfixed, hok, hcounted⟩ := of_decide_eq_true ht
  obtain ⟨u, hok⟩ := Option.isSome_iff_exists.1 hok
  have hmount : ((staged t).claim 1).mount (guestPass i) i 1 = (_, .ok ()) :=
    Prod.ext rfl (toOption_eq_some.1 hok)
  obtain ⟨hs, hconfig, hsch⟩ := staged_unhydrated t
  obtain ⟨fresh, o, hentered, hs', hiff, hstands⟩ := mounts_of_mount hs hsch (fun _ _ h => h)
    (hid ▸ vacant_staged t) hmount
  rw [hiff.2 (hstands (.inr (Island.settled_of_fixed hfixed))), hid] at hs'
  exact ⟨t, i, _, fresh, o, htemplate, hi, hmount, hentered, hs', hcounted⟩

/-- The first handler has the island rendered without the branch, and the second one is not
found. -/
theorem mounts_leave :
    ∃ t i s' fresh o, (compile {} leaveMarkup).template? = some t ∧ guest? t = some i ∧
      (staged t).Unhydrated ∧ (staged t).scheduler = {} ∧ (staged t).Vacant 1 i.id ∧
      ((staged t).claim 1).mount (guestPass i) i 1 = (s', .ok ()) ∧
      ((staged t).claim 1).entered? (guestPass i) i 1 = some (fresh, o) ∧
      s'.shown? "n" = some "0" ∧
      (fresh.performEach "i" ((mounts o.handlers).map (·.2))).shown? "n" = some "1" := by
  have ht : ((compile {} leaveMarkup).template?.bind fun t => (guest? t).bind fun i =>
      (((staged t).claim 1).entered? (guestPass i) i 1).map fun x =>
        decide (i.id = "i" ∧
          (((staged t).claim 1).mount (guestPass i) i 1).2.toOption.isSome = true ∧
          (((staged t).claim 1).mount (guestPass i) i 1).1.shown? "n" = some "0" ∧
          (x.1.performEach "i" ((mounts x.2.handlers).map (·.2))).shown? "n" = some "1")) =
        some true := by
    decide +kernel
  obtain ⟨t, htemplate, ht⟩ := Option.bind_eq_some_iff.1 ht
  obtain ⟨i, hi, ht⟩ := Option.bind_eq_some_iff.1 ht
  obtain ⟨⟨fresh, o⟩, hentered, ht⟩ := Option.map_eq_some_iff.1 ht
  obtain ⟨hid, hok, hcounts⟩ := of_decide_eq_true ht
  obtain ⟨u, hok⟩ := Option.isSome_iff_exists.1 hok
  obtain ⟨hs, -, hsch⟩ := staged_unhydrated t
  exact ⟨t, i, _, fresh, o, htemplate, hi, hs, hsch, hid ▸ vacant_staged t,
    Prod.ext rfl (toOption_eq_some.1 hok), hentered, hcounts⟩

end Session

end Archipelago
