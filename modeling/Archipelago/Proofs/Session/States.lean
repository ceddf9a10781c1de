import Archipelago.Proofs.Session.Tasks
import Archipelago.Proofs.Session.Unmoved
import Archipelago.Proofs.Value.Plain

/-!
# States of placeholders

The states that placeholders have, the islands that are mounted and the templates that have stores
say the same between any two calls. In the middle of a pass they do not: a placeholder is marked
before its island is mounted, and a store is made before there is an island to drive. So the steps
here are larger ones, from one placeholder to the next.
-/

namespace Archipelago

open Hydration (MountedComponent State)

namespace Session

/-! ## One placeholder -/

/-- Marks a placeholder as being hydrated. -/
def claim (s : Session) (placeholder : NodeId) : Session :=
  { s with document := s.document.setAttr placeholder Hydration.stateAttr State.hydrating.name }

/-- The placeholder is one of that island, and it can be taken. -/
structure Vacant (s : Session) (placeholder : NodeId) (id : String) : Prop where
  island : s.document.attr? placeholder Page.islandAttr = some id
  free : (State.ofAttr (s.document.attr? placeholder Hydration.stateAttr)).isFree = true

/-- The islands of a pass are listed by their names. -/
def Pass.Keyed (p : Pass) : Prop := ∀ id i, Dict.get? p.islands id = some i → i.id = id

theorem keyed_ofList (islands : List Island) {id : String} {i : Island}
    (h : Dict.get? (Dict.ofList (islands.map fun i => (i.id, i))) id = some i) :
    i ∈ islands ∧ i.id = id := by
  obtain ⟨j, hj, he⟩ := List.mem_map.1 (Dict.mem_of_mem_ofList (Dict.mem_of_get? h))
  obtain ⟨rfl, rfl⟩ := Prod.mk.inj he
  exact ⟨hj, rfl⟩

section Vacant

variable {s : Session} {placeholder : NodeId} {id : String} (h : s.Vacant placeholder id)
include h

theorem Vacant.attr?_claim :
    (s.claim placeholder).document.attr? placeholder Hydration.stateAttr =
      some State.hydrating.name := by
  obtain ⟨_, _, helement⟩ := Document.hasElement_of_attr? h.island
  exact (helement.attr?_setAttr _ _ _).trans (if_pos rfl)

theorem Vacant.sound_claim (hs : s.Sound) : (s.claim placeholder).Sound :=
  sound_stable.take hs h.island h.free

end Vacant

/-- To open an island makes a store at most. -/
theorem opening_keeps {s s' : Session} {resident : Resident} {island : Island}
    {c : MountedComponent} {o : Opening} (h : s.opening resident island c = .ok (s', o)) :
    ∃ stores, s' = { s with stores } := by
  rcases opening_cases h with ⟨rfl, -⟩ | ⟨store, hensure, -⟩
  · exact ⟨s'.stores, rfl⟩
  · rcases ensureStore_eq_ok hensure with ⟨rfl, -⟩ | ⟨-, _, -, rfl⟩
    · exact ⟨s'.stores, rfl⟩
    · exact ⟨_, rfl⟩

theorem sound_opening {s s' : Session} (hs : s.Sound) {resident : Resident} {island : Island}
    {c : MountedComponent} {o : Opening} (h : s.opening resident island c = .ok (s', o)) :
    s'.Sound := by
  rcases opening_cases h with ⟨rfl, -⟩ | ⟨store, hensure, -⟩
  · exact hs
  · exact hs.ensure hensure

/-- An island that is mounted was not there before, and its component and its store have been made.
-/
theorem mount_eq_ok {s s' : Session} {p : Pass} {island : Island} {placeholder : NodeId}
    (h : s.mount p island placeholder = (s', .ok ())) :
    Dict.get? s.mounted island.id = none ∧
      ∃ c s₁ o, s.registry.mount island p.resident.toValue = .ok c ∧
        s.opening p.resident island c = .ok (s₁, o) ∧
        s' = (s₁.settle p island placeholder c o).fireMounts island.id
          (handlersOf .mount o.handlers) := by
  unfold mount at h
  dsimp only at h
  split at h
  · cases (congrArg Prod.snd h :)
  · rename_i hfree
    refine ⟨by simpa [Dict.contains] using hfree, ?_⟩
    split at h
    · cases (congrArg Prod.snd h :)
    · cases (congrArg Prod.snd h :)
    · rename_i c hregistry
      split at h
      · cases (congrArg Prod.snd h :)
      · rename_i s₁ o hopening
        exact ⟨c, s₁, o, hregistry, hopening, (congrArg Prod.fst h).symm⟩

section HydrateOne

variable {s : Session} {p : Pass} {n : NodeId} {id : String} {island : Island}

/-- A place of an island that is not known is left with a warning. -/
theorem hydrateOne_unknown (hid : s.document.attr? n Page.islandAttr = some id)
    (hisland : Dict.get? p.islands id = none) (r : HydrationResult) :
    ∃ warnings, hydrateOne p s r n = (s, { r with warnings }) := by
  unfold hydrateOne
  rw [hid]
  dsimp only
  rw [hisland]
  exact ⟨_, rfl⟩

/-- A place that is not free is left as it is. -/
theorem hydrateOne_taken (hid : s.document.attr? n Page.islandAttr = some id)
    (hisland : Dict.get? p.islands id = some island)
    (htaken : (State.ofAttr (s.document.attr? n Hydration.stateAttr)).isFree = false)
    (r : HydrationResult) : hydrateOne p s r n = (s, r) := by
  unfold hydrateOne
  rw [hid]
  dsimp only
  rw [hisland]
  dsimp only
  rw [htaken]
  rfl

/-- A place that is free is claimed, and then it is taken or marked as failed. -/
theorem hydrateOne_vacant (h : s.Vacant n id) (hisland : Dict.get? p.islands id = some island)
    (r : HydrationResult) :
    hydrateOne p s r n =
      match (s.claim n).mount p island n with
      | (s, .ok ()) => (s.record island .hydrated, { r with hydrated := r.hydrated + 1 })
      | (s, .error e) =>
        ((s.fail n e).record island .failed,
          { r with failed := r.failed + 1, errors := r.errors ++ [e] }) := by
  unfold hydrateOne
  rw [h.island]
  dsimp only
  rw [hisland]
  dsimp only
  rw [h.free]
  rfl

end HydrateOne

/-- A placeholder that is vacant is taken by an island, or marked as failed; any other one is left
as it is. -/
theorem hydrateOne_cases {p : Pass} (hp : p.Keyed) (s : Session) (r : HydrationResult)
    (placeholder : NodeId) :
    (hydrateOne p s r placeholder).1 = s ∨
      ∃ island, s.Vacant placeholder island.id ∧ Dict.get? p.islands island.id = some island ∧
        ((∃ e, (hydrateOne p s r placeholder).1 =
            ((s.claim placeholder).fail placeholder e).record island .failed) ∨
          ∃ c s' o, Dict.get? s.mounted island.id = none ∧
            s.registry.mount island p.resident.toValue = .ok c ∧
            (s.claim placeholder).opening p.resident island c = .ok (s', o) ∧
            (hydrateOne p s r placeholder).1 =
              ((s'.settle p island placeholder c o).fireMounts island.id
                (handlersOf .mount o.handlers)).record island .hydrated) := by
  cases hid : s.document.attr? placeholder Page.islandAttr with
  | none =>
    unfold hydrateOne
    rw [hid]
    exact .inl rfl
  | some id =>
    cases hisland : Dict.get? p.islands id with
    | none =>
      obtain ⟨warnings, hall⟩ := hydrateOne_unknown hid hisland r
      exact .inl (congrArg Prod.fst hall)
    | some island =>
      obtain rfl := hp id island hisland
      cases hfree : (State.ofAttr (s.document.attr? placeholder Hydration.stateAttr)).isFree with
      | false => exact .inl (congrArg Prod.fst (hydrateOne_taken hid hisland hfree r))
      | true =>
        refine .inr ⟨island, ⟨hid, hfree⟩, hisland, ?_⟩
        rw [hydrateOne_vacant ⟨hid, hfree⟩ hisland]
        split
        · rename_i s' hmount
          obtain ⟨hnone, c, s₁, o, hregistry, hopening, rfl⟩ := mount_eq_ok hmount
          exact .inr ⟨c, s₁, o, hnone, hregistry, hopening, rfl⟩
        · rename_i s' e hmount
          obtain ⟨rfl, -⟩ := mount_eq_error hmount
          exact .inl ⟨e, rfl⟩

/-! ## Steps from one placeholder to the next -/

/-- The steps that calls are made of when no step ends in the middle of a placeholder or of a
cleanup, and that a property is kept by each of them. -/
structure Whole (P : Session → Prop) : Prop where
  load {s : Session} (t : Template) (scope : String) : P s → P (s.loadTemplate t scope)
  fires {s s' : Session} {island : String} : P s → s.Fires island s' → P s'
  settle {s s' : Session} {p : Pass} {island : Island} {placeholder : NodeId}
    {c : MountedComponent} {o : Opening} :
    P s → s.Vacant placeholder island.id → Dict.get? s.mounted island.id = none →
      (s.claim placeholder).opening p.resident island c = .ok (s', o) →
      P (s'.settle p island placeholder c o)
  refuse {s : Session} {placeholder : NodeId} {id : String} (e : HydrationError) :
    P s → s.Vacant placeholder id → P ((s.claim placeholder).fail placeholder e)
  record {s : Session} (island : Island) (outcome : HydrationOutcome) :
    P s → P (s.record island outcome)
  unmount {s : Session} (ids : List String) : P s → P (s.unmount ids).1
  pop {s : Session} (time : Nat) : P s → P { s with scheduler := (s.scheduler.pop time).1 }
  advanceTo {s : Session} (time : Nat) : P s → P { s with scheduler := s.scheduler.advanceTo time }

namespace Whole

variable {P : Session → Prop} (hP : Whole P) {s : Session}
include hP

theorem fireMounts (hs : P s) (island : String) (places : List Nat) :
    P (s.fireMounts island places) := by
  unfold Session.fireMounts
  exact List.foldlRecOn places _ (motive := P) hs fun s hs i _ =>
    hP.fires hs (s.fires_dispatch island .mount i)

theorem hydrateOne {p : Pass} (hp : p.Keyed) (hs : P s) (r : HydrationResult)
    (placeholder : NodeId) : P (Session.hydrateOne p s r placeholder).1 := by
  rcases hydrateOne_cases hp s r placeholder with he | ⟨island, hvacant, -, ⟨e, he⟩ |
    ⟨c, s', o, hnone, -, hopening, he⟩⟩
  · rwa [he]
  · rw [he]
    exact hP.record _ _ (hP.refuse e hs hvacant)
  · rw [he]
    exact hP.record _ _ (hP.fireMounts (hP.settle hs hvacant hnone hopening) _ _)

/-- A pass keeps what each place keeps. -/
theorem hydrate (hs : P s) (containerId : String) (resident : Resident) (islands : List Island)
    (time : String) : P (s.hydrate containerId resident islands time).1 := by
  unfold Session.hydrate
  split
  · exact hs
  · refine List.foldlRecOn _ _ (motive := fun sr : Session × HydrationResult => P sr.1) hs
      fun sr hsr n _ => hP.hydrateOne ?_ hsr _ _
    exact fun id i hi => (keyed_ofList islands hi).2

theorem cleanupIn (hs : P s) (containerId : String) : P (s.cleanupIn containerId).1 := by
  unfold Session.cleanupIn
  split
  · exact hs
  · exact hP.unmount _ hs

theorem runDue (hs : P s) (time : Nat) (r : TickReport) : P (runDue time s r).1 := by
  fun_induction Session.runDue time s r with
  | case1 s r scheduler hpop =>
    have := hP.pop time hs
    rwa [hpop] at this
  | case2 s r scheduler timer hpop next r' h ih =>
    refine ih (hP.fires ?_ (fires_runJob _ timer.payload.1 timer.payload.2))
    have := hP.pop time hs
    rwa [hpop] at this
  | case3 s r scheduler timer hpop next r' h =>
    refine hP.fires ?_ (fires_runJob _ timer.payload.1 timer.payload.2)
    have := hP.pop time hs
    rwa [hpop] at this

theorem call (hs : P s) (c : Call) : P (s.call c) := by
  cases c with
  | load t scope => exact hP.load t scope hs
  | hydrate containerId resident islands time =>
    exact hP.hydrate hs containerId resident islands time
  | dispatch island kind index => exact hP.fires hs (s.fires_dispatch island kind index)
  | change island index value => exact hP.fires hs (s.fires_change island index value)
  | advance ms => exact hP.advanceTo _ (hP.runDue hs _ _)
  | cleanup => exact hP.unmount _ hs
  | cleanupIn containerId => exact hP.cleanupIn hs containerId

/-- What each call keeps, all calls keep. -/
theorem run (hs : P s) (calls : List Call) : P (s.run calls) :=
  List.foldlRecOn calls _ (motive := P) hs fun _ hs c _ => hP.call hs c

end Whole

/-! ## What states say -/

/-- A placeholder that says that it is hydrated has been taken by an island, and it names that
island. No placeholder is being hydrated. -/
structure Seated (s : Session) : Prop extends Sound s where
  carries : ∀ id m, Dict.get? s.mounted id = some m →
    s.document.attr? m.placeholder Page.islandAttr = some id
  held : ∀ n, s.document.attr? n Hydration.stateAttr = some State.hydrated.name →
    ∃ id m, Dict.get? s.mounted id = some m ∧ m.placeholder = n
  calm : ∀ n, s.document.attr? n Hydration.stateAttr ≠ some State.hydrating.name

/-- Besides, only templates that drive an island have stores. -/
structure Placed (s : Session) : Prop extends Seated s where
  used : ∀ t, (Dict.get? s.stores t).isSome = true →
    ∃ id m, Dict.get? s.mounted id = some m ∧ m.template = some t

/-! ## Placeholders that are taken -/

/-- The attributes of a document in which an island has settled. -/
theorem attr?_settle {s s' : Session} (p : Pass) (island : Island) {placeholder : NodeId}
    (c : MountedComponent) (o : Opening) {id : String} (hvacant : s.Vacant placeholder id)
    (hs' : ∃ stores, s' = { s.claim placeholder with stores }) :
    (s'.settle p island placeholder c o).document.attr? placeholder Hydration.stateAttr =
        some State.hydrated.name ∧
      ∀ n name, (n = placeholder → name ≠ Hydration.stateAttr ∧ name ≠ Hydration.timeAttr) →
        (s'.settle p island placeholder c o).document.attr? n name = s.document.attr? n name := by
  obtain ⟨stores, rfl⟩ := hs'
  obtain ⟨-, -, hdocument, -⟩ := settle_eq { s.claim placeholder with stores }
    p island placeholder c o
  obtain ⟨_, _, helement⟩ := Document.hasElement_of_attr?
    (d := ((s.claim placeholder).document.setInnerHtml
    placeholder o.html)) ((Document.attr?_setInnerHtml _ _ _ _ _).trans hvacant.attr?_claim)
  rw [hdocument]
  refine ⟨?_, fun n name hn => ?_⟩
  · rw [Document.attr?_setAttr_of_ne _ fun _ => by decide, helement.attr?_setAttr, if_pos rfl]
  · have hne : ∀ attr, attr = Hydration.stateAttr ∨ attr = Hydration.timeAttr → placeholder = n →
        attr ≠ name := by
      rintro attr (rfl | rfl) he
      · exact (hn he.symm).1.symm
      · exact (hn he.symm).2.symm
    rw [Document.attr?_setAttr_of_ne _ (hne _ (.inr rfl)),
      Document.attr?_setAttr_of_ne _ (hne _ (.inl rfl)), Document.attr?_setInnerHtml]
    exact Document.attr?_setAttr_of_ne _ (hne _ (.inl rfl)) _

/-- A place that has failed says so. -/
theorem attr?_fail {s : Session} {placeholder : NodeId} {id : String}
    (hvacant : s.Vacant placeholder id) (e : HydrationError) :
    ((s.claim placeholder).fail placeholder e).document.attr? placeholder Hydration.stateAttr =
        some State.failed.name ∧
      ∀ n name, (n = placeholder → name ≠ Hydration.stateAttr) →
        ((s.claim placeholder).fail placeholder e).document.attr? n name =
          s.document.attr? n name := by
  obtain ⟨_, _, helement⟩ := Document.hasElement_of_attr? hvacant.attr?_claim
  have hfail : ∀ n name, ((s.claim placeholder).fail placeholder e).document.attr? n name =
      ((s.claim placeholder).document.setAttr placeholder Hydration.stateAttr
        State.failed.name).attr? n name := by
    intro n name
    unfold fail
    dsimp only
    split
    · rfl
    · exact Document.attr?_setInnerHtml _ _ _ _ _
  refine ⟨?_, fun n name hn => ?_⟩
  · rw [hfail, helement.attr?_setAttr, if_pos rfl]
  · have hne : placeholder = n → Hydration.stateAttr ≠ name := fun he => (hn he.symm).symm
    rw [hfail, Document.attr?_setAttr_of_ne _ hne]
    exact Document.attr?_setAttr_of_ne _ hne _

namespace Seated

variable {s s' : Session}

theorem of_unmoved (h : s.Seated) (hs : s'.Sound) (hu : Unmoved s s') : s'.Seated := by
  refine ⟨hs, fun id m hm => ?_, fun n hn => ?_, fun n => ?_⟩
  · obtain ⟨m', hm', hbare⟩ := hu.symm.exists_bare hm
    have hplace : m'.placeholder = m.placeholder := (congrArg Mounted.placeholder hbare :)
    rw [hu.attrs, ← hplace]
    exact h.carries id m' hm'
  · obtain ⟨id, m, hm, hplace⟩ := h.held n (hu.attrs n _ ▸ hn)
    obtain ⟨m', hm', hbare⟩ := hu.exists_bare hm
    exact ⟨id, m', hm', (congrArg Mounted.placeholder hbare).trans hplace⟩
  · rw [hu.attrs]
    exact h.calm n

theorem of_eq (h : s.Seated) (hd : s'.document = s.document) (hm : s'.mounted = s.mounted)
    (hs : s'.stores = s.stores) : s'.Seated :=
  h.of_unmoved (h.toSound.of_eq hd hm hs) ((Unmoved.refl s).of_eq hd hm hs)

variable {p : Pass} {island : Island} {placeholder : NodeId} {c : MountedComponent} {o : Opening}

/-- An island that settles takes its place. -/
theorem settle (h : s.Seated) (hvacant : s.Vacant placeholder island.id)
    (hnone : Dict.get? s.mounted island.id = none)
    (hopening : (s.claim placeholder).opening p.resident island c = .ok (s', o)) :
    (s'.settle p island placeholder c o).Seated := by
  have hkeeps := opening_keeps hopening
  obtain ⟨hself, hothers⟩ := attr?_settle p island c o hvacant hkeeps
  have hsound : s'.Sound := sound_opening (hvacant.sound_claim h.toSound) hopening
  obtain ⟨stores, rfl⟩ := hkeeps
  obtain ⟨timers, hmounted, -⟩ := settle_eq { s.claim placeholder with stores }
    p island placeholder c o
  have hget := fun id => (congrArg (Dict.get? · id) hmounted).trans (Dict.get?_insert _ _ _ _)
  refine ⟨hsound.settle p c hvacant.attr?_claim (opening_eq_ok hopening).1, fun id m hm => ?_,
    fun n hn => ?_, fun n => ?_⟩
  · rw [hothers _ _ fun _ => by decide]
    rw [hget] at hm
    split at hm
    · rename_i he
      obtain rfl := Option.some.inj hm
      exact he ▸ hvacant.island
    · exact h.carries id m hm
  · by_cases hplace : n = placeholder
    · exact ⟨island.id, _, (hget _).trans (if_pos rfl), hplace.symm⟩
    · rw [hothers _ _ fun he => absurd he hplace] at hn
      obtain ⟨id, m, hm, rfl⟩ := h.held n hn
      refine ⟨id, m, (hget id).trans ((if_neg ?_).trans hm), rfl⟩
      rintro rfl
      cases hnone.symm.trans hm
  · by_cases hplace : n = placeholder
    · rw [hplace, hself]
      decide
    · rw [hothers _ _ fun he => absurd he hplace]
      exact h.calm n

/-- A place that has failed is no place of an island. -/
theorem refuse (h : s.Seated) {id : String} (hvacant : s.Vacant placeholder id)
    (e : HydrationError) : ((s.claim placeholder).fail placeholder e).Seated := by
  obtain ⟨hself, hothers⟩ := attr?_fail hvacant e
  obtain ⟨document, hfail⟩ := fail_eq (s.claim placeholder) placeholder e
  have hsound := sound_stable.fail e (hvacant.sound_claim h.toSound) hvacant.attr?_claim
  rw [hfail] at hself hothers hsound ⊢
  refine ⟨hsound, fun id m hm => ?_, fun n hn => ?_, fun n => ?_⟩
  · exact (hothers _ _ fun _ => by decide).trans (h.carries id m hm)
  · by_cases hplace : n = placeholder
    · rw [hplace, hself] at hn
      exact absurd (Option.some.inj hn) (by decide)
    · exact h.held n ((hothers _ _ fun he => absurd he hplace).symm.trans hn)
  · by_cases hplace : n = placeholder
    · rw [hplace, hself]
      decide
    · rw [hothers _ _ fun he => absurd he hplace]
      exact h.calm n

/-- With its island a placeholder loses its state. -/
theorem unmountOne (h : s.Seated) (r : CleanupReport) (id : String) :
    (Session.unmountOne s r id).1.Seated := by
  have hsound := h.toSound.unmountOne r id
  unfold Session.unmountOne at hsound ⊢
  split
  · exact h
  · rename_i m hm
    rw [hm] at hsound
    have hattr : ∀ n name, ((s.document.removeAttr m.placeholder Hydration.stateAttr).removeAttr
        m.placeholder Hydration.timeAttr).attr? n name =
          if m.placeholder = n ∧ (Hydration.stateAttr = name ∨ Hydration.timeAttr = name) then none
          else s.document.attr? n name := by
      intro n name
      simp only [Document.attr?_removeAttr]
      grind
    refine ⟨hsound, fun id' x hx => ?_, fun n hn => ?_, fun n => ?_⟩
    · rw [hattr, if_neg fun he =>
        he.2.elim (fun h => absurd h (by decide)) fun h => absurd h (by decide)]
      exact h.carries id' x (Dict.get?_erase_eq_some hx).2
    · rw [hattr] at hn
      split at hn
      · cases hn
      · rename_i hother
        obtain ⟨id', x, hx, rfl⟩ := h.held n hn
        refine ⟨id', x, (Dict.get?_erase _ _ _).trans ((if_neg ?_).trans hx), rfl⟩
        rintro rfl
        obtain rfl := Option.some.inj (hm.symm.trans hx)
        exact hother ⟨rfl, .inl rfl⟩
    · rw [hattr]
      split
      · simp
      · exact h.calm n

theorem foldl_unmountOne (h : s.Seated) (ids : List String) (r : CleanupReport) :
    (ids.foldl (fun sr id => Session.unmountOne sr.1 sr.2 id) (s, r)).1.Seated :=
  List.foldlRecOn ids _ (motive := fun sr : Session × CleanupReport => sr.1.Seated) h
    fun sr hsr id _ => hsr.unmountOne sr.2 id

/-- Once the stores are dropped that no island needs, all is in its place. -/
theorem dropStores (h : s.Seated) : s.dropStores.Placed where
  toSeated := ⟨h.toSound.dropStores, h.carries, h.held, h.calm⟩
  used t ht := by
    have hget := Dict.get?_filter_key s.stores
      (fun name => s.mounted.any fun e => decide (e.2.template = some name)) t
    obtain ⟨store, hstore⟩ := Option.isSome_iff_exists.1 ht
    rw [show Dict.get? s.dropStores.stores t = _ from hget] at hstore
    split at hstore
    · rename_i hused
      obtain ⟨⟨id, m⟩, hm, htemplate⟩ := List.any_eq_true.1 hused
      exact ⟨id, m, Dict.get?_of_mem h.nodup hm, of_decide_eq_true htemplate⟩
    · cases hstore

end Seated

namespace Placed

variable {s s' : Session}

theorem of_unmoved (h : s.Placed) (hs : s'.Sound) (hu : Unmoved s s') : s'.Placed where
  toSeated := h.toSeated.of_unmoved hs hu
  used t ht := by
    obtain ⟨id, m, hm, htemplate⟩ := h.used t (hu.stores t ▸ ht)
    obtain ⟨m', hm', hbare⟩ := hu.exists_bare hm
    exact ⟨id, m', hm', (congrArg Mounted.template hbare).trans htemplate⟩

theorem of_eq (h : s.Placed) (hd : s'.document = s.document) (hm : s'.mounted = s.mounted)
    (hs : s'.stores = s.stores) : s'.Placed :=
  h.of_unmoved (h.toSound.of_eq hd hm hs) ((Unmoved.refl s).of_eq hd hm hs)

/-- A store that is made for an island is driven by it as soon as the island has settled. One that
was there before has an island, which is still there. -/
theorem settle (h : s.Placed) {p : Pass} {island : Island} {placeholder : NodeId}
    {c : MountedComponent} {o : Opening} (hvacant : s.Vacant placeholder island.id)
    (hnone : Dict.get? s.mounted island.id = none)
    (hopening : (s.claim placeholder).opening p.resident island c = .ok (s', o)) :
    (s'.settle p island placeholder c o).Placed where
  toSeated := h.toSeated.settle hvacant hnone hopening
  used t ht := by
    obtain ⟨timers, hmounted, -, hstores, -⟩ := settle_eq s' p island placeholder c o
    have hget := fun id => (congrArg (Dict.get? · id) hmounted).trans (Dict.get?_insert _ _ _ _)
    have hnew : o.template = some t → ∃ id m,
        Dict.get? (s'.settle p island placeholder c o).mounted id = some m ∧
          m.template = some t :=
      fun htemplate => ⟨island.id, _, (hget _).trans (if_pos rfl), htemplate⟩
    have hold : s'.mounted = s.mounted → (Dict.get? s.stores t).isSome = true → ∃ id m,
        Dict.get? (s'.settle p island placeholder c o).mounted id = some m ∧
          m.template = some t := by
      intro hm ht
      obtain ⟨id, m, hget', htemplate⟩ := h.used t ht
      refine ⟨id, m, (hget id).trans ((if_neg ?_).trans (hm ▸ hget')), htemplate⟩
      rintro rfl
      cases hnone.symm.trans hget'
    rw [hstores] at ht
    rcases opening_cases hopening with ⟨rfl, -⟩ | ⟨store, hensure, rfl⟩
    · exact hold rfl ht
    · rcases ensureStore_eq_ok hensure with ⟨rfl, -⟩ | ⟨-, _, -, rfl⟩
      · exact hold rfl ht
      · by_cases he : island.templateId = t
        · exact hnew (congrArg some he)
        · exact hold rfl ((congrArg Option.isSome
            ((Dict.get?_insert _ _ _ _).trans (if_neg he))).symm.trans ht)

end Placed

/-- Every larger step keeps all in its place. -/
theorem placed_whole : Whole Placed where
  load t scope hs := hs.of_eq rfl rfl rfl
  fires hs hf := hs.of_unmoved (hf.sound hs.toSound) (hf.unmoved hs.toSound)
  settle hs hvacant hnone hopening := hs.settle hvacant hnone hopening
  refuse e hs hvacant := by
    obtain ⟨document, hfail⟩ := fail_eq _ _ e
    have hseated := hs.toSeated.refuse hvacant e
    rw [hfail] at hseated ⊢
    exact ⟨hseated, hs.used⟩
  record island outcome hs := hs.of_eq rfl rfl rfl
  unmount ids hs := (hs.toSeated.foldl_unmountOne ids {}).dropStores
  pop time hs := hs.of_eq rfl rfl rfl
  advanceTo time hs := hs.of_eq rfl rfl rfl

/-- Before anything is hydrated all is in its place. -/
theorem Unhydrated.placed {s : Session} (hs : s.Unhydrated)
    (hfree : ∀ n, s.document.attr? n Hydration.stateAttr = none) : s.Placed := by
  have hnone : ∀ id, Dict.get? s.mounted id = none := fun id => by rw [hs.mounted]; rfl
  refine ⟨⟨hs.inStep.toSound, fun id m hm => ?_, fun n hn => ?_, fun n hn => ?_⟩, fun t ht => ?_⟩
  · cases (hnone id).symm.trans hm
  · cases (hfree n).symm.trans hn
  · cases (hfree n).symm.trans hn
  · rw [hs.stores] at ht
    cases ht

/-- Whatever is called, a placeholder says that it is hydrated if and only if it is the placeholder
of exactly one mounted island, and it names that island. None is left in the middle of being
hydrated, and a template has a store if and only if it drives a mounted island. -/
theorem states_of_run {s : Session} (hs : s.Unhydrated)
    (hfree : ∀ n, s.document.attr? n Hydration.stateAttr = none) (calls : List Call) :
    (∀ n, (s.run calls).document.attr? n Hydration.stateAttr = some State.hydrated.name ↔
        ∃! id, ∃ m, Dict.get? (s.run calls).mounted id = some m ∧ m.placeholder = n) ∧
      (∀ id m, Dict.get? (s.run calls).mounted id = some m →
        (s.run calls).document.attr? m.placeholder Page.islandAttr = some id) ∧
      (∀ n, (s.run calls).document.attr? n Hydration.stateAttr ≠ some State.hydrating.name) ∧
      ∀ t, (Dict.get? (s.run calls).stores t).isSome = true ↔
        ∃ id m, Dict.get? (s.run calls).mounted id = some m ∧ m.template = some t := by
  have hrun := placed_whole.run (hs.placed hfree) calls
  refine ⟨fun n => ⟨fun hn => ?_, ?_⟩, hrun.carries, hrun.calm, fun t => ⟨hrun.used t, ?_⟩⟩
  · obtain ⟨id, m, hm, rfl⟩ := hrun.held n hn
    refine ⟨id, ⟨m, hm, rfl⟩, ?_⟩
    rintro id' ⟨m', hm', hplace⟩
    exact hrun.apart id' id m' m hm' hm hplace
  · rintro ⟨id, ⟨m, hm, rfl⟩, -⟩
    exact hrun.taken id m hm
  · rintro ⟨id, m, hm, htemplate⟩
    obtain ⟨-, -, store, hstore⟩ := hrun.driven id m t hm htemplate
    rw [hstore]
    rfl

theorem staged_free (t : Template) (n : NodeId) :
    (staged t).document.attr? n Hydration.stateAttr = none := by
  show ((({} : Document).addContainer "root").1.mount 0
    (.fragment [.island "i" "IfChain" []])).attr? n Hydration.stateAttr = none
  have hnodes : ((({} : Document).addContainer "root").1.mount 0
      (.fragment [.island "i" "IfChain" []])).nodes.size = 2 := by decide +kernel
  by_cases hn : n < 2
  · have hall : ∀ n < 2, ((({} : Document).addContainer "root").1.mount 0
        (.fragment [.island "i" "IfChain" []])).attr? n Hydration.stateAttr = none := by
      decide +kernel
    exact hall n hn
  · unfold Document.attr? Document.node?
    rw [Array.getElem?_eq_none (hnodes.trans_le (Nat.le_of_not_lt hn))]
    rfl

/-- The island of a page with one place is there after its first event, and gone after a cleanup. -/
theorem states_pulse :
    ∃ t, (compile {} (pulseMarkup "900")).template? = some t ∧
      (∃! id, ∃ m, Dict.get? ((staged t).run (pulse t)).mounted id = some m ∧ m.placeholder = 1) ∧
      Dict.get? ((staged t).run (pulse t ++ [.cleanup])).stores "t" = none := by
  have ht : ((compile {} (pulseMarkup "900")).template?.map fun t =>
      decide (((staged t).run (pulse t)).document.attr? 1 Hydration.stateAttr =
          some State.hydrated.name) &&
        (Dict.keys ((staged t).run (pulse t ++ [.cleanup])).mounted).isEmpty) = some true := by
    decide +kernel
  obtain ⟨t, htemplate, hcheck⟩ := Option.map_eq_some_iff.1 ht
  obtain ⟨hstate, hempty⟩ := Bool.and_eq_true_iff.1 hcheck
  obtain ⟨hs, -⟩ := staged_unhydrated t
  obtain ⟨hhydrated, -⟩ := states_of_run hs (staged_free t) (pulse t)
  obtain ⟨-, -, -, hused⟩ := states_of_run hs (staged_free t) (pulse t ++ [.cleanup])
  refine ⟨t, htemplate, (hhydrated 1).1 (of_decide_eq_true hstate), ?_⟩
  have hnone : ((staged t).run (pulse t ++ [.cleanup])).mounted = [] :=
    List.map_eq_nil_iff.1 (List.isEmpty_iff.1 hempty)
  rw [← Option.not_isSome_iff_eq_none, hused, hnone]
  rintro ⟨id, m, hm, -⟩
  cases hm

end Session

end Archipelago
