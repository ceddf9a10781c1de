import Archipelago.Proofs.Session.Owners

/-!
# Templates beside each other

All islands share one document, one list of islands and one scheduler. Even so, an event of an
island that one template drives spares the islands of all others. What an island shows is one piece
of markup below its own placeholder, and work on the timers of one island leaves those of the others
alone.
-/

namespace Archipelago

open Hydration (MountedComponent State)

namespace Session

/-! ## What islands show -/

/-- Every mounted island shows one piece of markup. -/
structure Shown (s : Session) : Prop extends Sound s where
  shows : ∀ id m, Dict.get? s.mounted id = some m → ∃ html, s.document.Shows m.placeholder html

namespace Shown

variable {s s' : Session} (h : s.Shown)
include h

theorem of_eq (hd : s'.document = s.document) (hm : s'.mounted = s.mounted)
    (hs : s'.stores = s.stores) : s'.Shown where
  toSound := h.toSound.of_eq hd hm hs
  shows := hd ▸ hm ▸ h.shows

/-- Work on a node that no island has taken. -/
theorem document {d : Document} {n : NodeId} (hk : Document.Keeps n s.document d)
    (hn : s.document.attr? n Hydration.stateAttr ≠ some State.hydrated.name) :
    Shown { s with document := d } where
  toSound := h.toSound.document hk hn
  shows id m hm := by
    obtain ⟨html, hshows⟩ := h.shows id m hm
    exact ⟨html, hshows.of_keeps hk (h.placeholder_ne hm hn)⟩

theorem rerender (store : Store) {m : Mounted} (hm : Dict.get? s.mounted m.island.id = some m)
    (ht : m.template ≠ none) : (s.rerender store m).Shown := by
  refine ⟨h.toSound.rerender store hm ht, fun id x hx => ?_⟩
  obtain ⟨timers, -, hdocument, -⟩ := rerender_eq s store m
  obtain ⟨y, hy, hbare⟩ := (Unmoved.rerender store hm).symm.exists_bare hx
  have hplace : y.placeholder = x.placeholder := (congrArg Mounted.placeholder hbare :)
  rw [← hplace, hdocument]
  by_cases he : y.placeholder = m.placeholder
  · obtain ⟨_, _, helement⟩ := Document.hasElement_of_attr? (h.taken _ m hm)
    rw [he]
    exact ⟨_, (helement.setInnerHtml _).1⟩
  · obtain ⟨html, hshows⟩ := h.shows id y hy
    exact ⟨html, hshows.of_keeps (Document.keeps_setInnerHtml _ _ _) he⟩

theorem refresh (template : String) (store : Store) (names : List String) :
    (s.refresh template store names).1.Shown :=
  h.toSound.refresh_rec h template store names fun _ _ hs hm ht =>
    hs.rerender store hm (ht ▸ Option.some_ne_none _)

theorem store (template : String) {store : Store} (hheard : store.Heard)
    (storage : Option Storage) :
    Shown { s with stores := Dict.insert s.stores template store, storage } :=
  ⟨h.toSound.store template hheard storage, h.shows⟩

theorem fire (island : String) {run : Trace → Outcome} (hrun : ByBatches run) :
    (s.fire island run).1.Shown := by
  rcases fire_cases s island hrun with he | ⟨m, template, store, u, storage, pending, hm, ht,
    hstore, hreach, he⟩
  · rwa [he]
  · rw [he]
    have hheard : u.store.Heard := (h.heard template store hstore).of_frame hreach.frame.symm
    exact ((h.store template hheard storage).refresh template u.store _).of_eq rfl rfl rfl

theorem settle (p : Pass) {island : Island} {placeholder : NodeId} (c : MountedComponent)
    {o : Opening}
    (htaken : s.document.attr? placeholder Hydration.stateAttr = some State.hydrating.name)
    (hopens : s.Opens island o) : (s.settle p island placeholder c o).Shown := by
  obtain ⟨timers, hmounted, hdocument, -⟩ := settle_eq s p island placeholder c o
  refine ⟨h.toSound.settle p c htaken hopens, fun id m hm => ?_⟩
  rw [hdocument]
  rw [hmounted, Dict.get?_insert] at hm
  split at hm
  · obtain rfl := Option.some.inj hm
    obtain ⟨_, _, helement⟩ := Document.hasElement_of_attr? htaken
    exact ⟨_, ((helement.setInnerHtml o.html).1.setAttr _ _ _).setAttr _ _ _⟩
  · obtain ⟨html, hshows⟩ := h.shows id m hm
    have hfree : m.placeholder ≠ placeholder := h.placeholder_ne hm (by rw [htaken]; decide)
    exact ⟨html, ((hshows.of_keeps (Document.keeps_setInnerHtml _ _ _) hfree).setAttr _ _ _).setAttr
      _ _ _⟩

theorem unmountOne (r : CleanupReport) (id : String) : (Session.unmountOne s r id).1.Shown := by
  refine ⟨h.toSound.unmountOne r id, fun id' x hx => ?_⟩
  unfold Session.unmountOne at hx ⊢
  split at hx
  · exact h.shows id' x hx
  · obtain ⟨html, hshows⟩ := h.shows id' x (Dict.get?_erase_eq_some hx).2
    exact ⟨html, (hshows.removeAttr _ _).removeAttr _ _⟩

end Shown

/-- Every step keeps it that islands show markup of their own. -/
theorem shown_stable : Stable Shown where
  load t scope hs := hs.of_eq rfl rfl rfl
  pop time hs := hs.of_eq rfl rfl rfl
  advanceTo time hs := hs.of_eq rfl rfl rfl
  fire island hs hrun := hs.fire island hrun
  take hs _ hfree := hs.document (Document.keeps_setAttr _ _ _ _) (ne_hydrated_of_isFree hfree)
  ensure hs he := by
    rcases ensureStore_eq_ok he with ⟨rfl, -⟩ | ⟨-, t, hnew, rfl⟩
    · exact hs
    · exact hs.store _ (heard_newStore hnew) _
  settle hs htaken _ hopens := hs.settle _ _ htaken hopens
  fail {s placeholder} e hs htaken := by
    have hn : s.document.attr? placeholder Hydration.stateAttr ≠ some State.hydrated.name := by
      rw [htaken]
      decide
    unfold Session.fail
    dsimp only
    split
    · exact hs.document (Document.keeps_setAttr _ _ _ _) hn
    · exact hs.document
        ((Document.keeps_setAttr _ _ _ _).trans (Document.keeps_setInnerHtml _ _ _)) hn
  record island outcome hs := hs.of_eq rfl rfl rfl
  unmountOne r id hs := hs.unmountOne r id
  dropStores hs := ⟨hs.toSound.dropStores, hs.shows⟩

/-! ## Islands of other templates -/

/-- Nothing has changed about the variables of other templates, nor about their islands: not what
they show, not their handlers and not their timers. -/
structure Spares (template : String) (s s' : Session) : Prop where
  stores : ∀ t, t ≠ template → Dict.get? s'.stores t = Dict.get? s.stores t
  mounted : ∀ id m, m.template ≠ some template →
    (Dict.get? s'.mounted id = some m ↔ Dict.get? s.mounted id = some m)
  jobs : ∀ id m, Dict.get? s.mounted id = some m → m.template ≠ some template →
    s'.scheduler.jobsOf id = s.scheduler.jobsOf id
  html : ∀ id m, Dict.get? s.mounted id = some m → m.template ≠ some template →
    s'.document.innerHtml m.placeholder = s.document.innerHtml m.placeholder

namespace Spares

variable {template : String} {s s' s'' : Session}

theorem refl (template : String) (s : Session) : Spares template s s :=
  ⟨fun _ _ => rfl, fun _ _ _ => .rfl, fun _ _ _ _ => rfl, fun _ _ _ _ => rfl⟩

theorem trans (h : Spares template s s') (h' : Spares template s' s'') :
    Spares template s s'' where
  stores t ht := (h'.stores t ht).trans (h.stores t ht)
  mounted id m hm := (h'.mounted id m hm).trans (h.mounted id m hm)
  jobs id m hget hm :=
    (h'.jobs id m ((h.mounted id m hm).2 hget) hm).trans (h.jobs id m hget hm)
  html id m hget hm :=
    (h'.html id m ((h.mounted id m hm).2 hget) hm).trans (h.html id m hget hm)

/-- There has been work on the timers of an island of the template, and on nothing else. -/
theorem of_tended {id : String} {token : Token} (hs : s'.stores = s.stores)
    (hm : s'.mounted = s.mounted) (hd : s'.document = s.document)
    (hsch : Tended id token s.scheduler s'.scheduler)
    (hid : ∀ m, Dict.get? s.mounted id = some m → m.template = some template) :
    Spares template s s' where
  stores _ _ := by rw [hs]
  mounted _ _ _ := by rw [hm]
  jobs other m hget ht := hsch.others other fun he => ht (hid m (he ▸ hget))
  html _ _ _ _ := by rw [hd]

theorem store (s : Session) (template : String) (store : Store) (storage : Option Storage) :
    Spares template s { s with stores := Dict.insert s.stores template store, storage } where
  stores _ ht := (Dict.get?_insert _ _ _ _).trans (if_neg (Ne.symm ht))
  mounted _ _ _ := .rfl
  jobs _ _ _ _ := rfl
  html _ _ _ _ := rfl

theorem rerender (ho : s.Owned) (hs : s.Shown) (store : Store) {m : Mounted}
    (hm : Dict.get? s.mounted m.island.id = some m) (ht : m.template = some template) :
    Spares template s (s.rerender store m) := by
  obtain ⟨timers, hmounted, hdocument, hstores, -⟩ := rerender_eq s store m
  have hother : ∀ id x, Dict.get? s.mounted id = some x → x.template ≠ some template →
      id ≠ m.island.id := by
    rintro id x hx hxt rfl
    obtain rfl := Option.some.inj (hm.symm.trans hx)
    exact hxt ht
  refine ⟨fun t _ => by rw [hstores], fun id x hxt => ?_, fun id x hx hxt => ?_,
    fun id x hx hxt => ?_⟩
  · rw [hmounted, Dict.get?_insert]
    split
    · rename_i he
      constructor
      · rintro hx
        obtain rfl := Option.some.inj hx
        exact absurd ht hxt
      · exact fun hx => absurd he.symm (hother id x hx hxt)
    · exact .rfl
  · exact (ho.tended_rerender store hm).others id (hother id x hx hxt)
  · obtain ⟨html, hshows⟩ := hs.shows id x hx
    have hplace : x.placeholder ≠ m.placeholder :=
      fun he => hother id x hx hxt (hs.apart id _ x m hx hm he)
    rw [hdocument, (hshows.of_keeps (Document.keeps_setInnerHtml _ _ _) hplace).innerHtml,
      hshows.innerHtml]

theorem refresh (ho : s.Owned) (hs : s.Shown) (template : String) (store : Store)
    (names : List String) : Spares template s (s.refresh template store names).1 := by
  refine (ho.refresh_rec (P := fun s' => Spares template s s' ∧ s'.Owned ∧ s'.Shown)
    ⟨.refl template s, ho, hs⟩ template store names ?_).1
  rintro s' m ⟨hspares, ho, hs⟩ hm ht
  have hdriven : m.template ≠ none := ht ▸ Option.some_ne_none _
  exact ⟨hspares.trans (.rerender ho hs store hm ht), ho.rerender store hm hdriven,
    hs.rerender store hm hdriven⟩

/-- An event of an island of the template, whether it fails or not. -/
theorem fire (ho : s.Owned) (hs : s.Shown) {island : String} {m : Mounted}
    (hm : Dict.get? s.mounted island = some m) (ht : m.template = some template)
    {run : Trace → Outcome} (hrun : ByBatches run) : Spares template s (s.fire island run).1 := by
  rcases fire_cases s island hrun with he | ⟨m', template', store, u, storage, pending, hm', ht',
    hstore, hreach, he⟩
  · rw [he]
    exact .refl template s
  · obtain rfl := Option.some.inj (hm.symm.trans hm')
    obtain rfl := Option.some.inj (ht.symm.trans ht')
    have hheard : u.store.Heard := (ho.heard template store hstore).of_frame hreach.frame.symm
    have htimed := ho.toTimed.of_sound (ho.toSound.store template hheard storage) rfl rfl rfl
      (Nat.le_refl _) rfl rfl
    have hrefresh := Spares.refresh (ho.of_eq htimed rfl rfl) (hs.store template hheard storage)
      template u.store (u.notices.map (·.name))
    rw [he]
    refine ((Spares.store s template u.store storage).trans hrefresh).trans
      (.of_tended rfl rfl rfl (tended_suspend _ m pending) fun x hx => ?_)
    by_contra hxt
    have hold := (hrefresh.mounted _ x hxt).1 hx
    rw [ho.named island m hm] at hold
    obtain rfl := Option.some.inj (hm.symm.trans hold)
    exact hxt ht

end Spares

theorem Fires.spares {s s' : Session} {island template : String} (h : s.Fires island s')
    (ho : s.Owned) (hs : s.Shown) {m : Mounted} (hm : Dict.get? s.mounted island = some m)
    (ht : m.template = some template) : Spares template s s' := by
  rcases h with rfl | ⟨run, hrun, rfl⟩
  · exact .refl template s'
  · exact .fire ho hs hm ht hrun

/-! ## Runs -/

/-- The sessions that come up from another one, between any two calls and between any two jobs while
time passes. -/
inductive Reached (start : Session) : Session → Prop
  | start : Reached start start
  | call {s : Session} (c : Call) : Reached start s → Reached start (s.call c)
  | job {s : Session} {time : Nat} {sch : Scheduler (String × Job)} {t : Timer (String × Job)} :
    Reached start s → s.scheduler.pop time = (sch, some t) → Reached start (s.popped sch t).1

theorem Reached.holds {P : Session → Prop} (hP : Stable P) {start s : Session}
    (h : Reached start s) (hs : P start) : P s := by
  induction h with
  | start => exact hs
  | call c _ ih => exact hP.call ih c
  | @job s time sch t _ hpop ih =>
    have hpopped := hP.pop time ih
    rw [hpop] at hpopped
    exact hP.runJob hpopped t.payload.1 t.payload.2

theorem Unhydrated.shown {s : Session} (hs : s.Unhydrated) : s.Shown := by
  refine ⟨hs.inStep.toSound, fun id m hm => ?_⟩
  rw [hs.mounted] at hm
  cases hm

/-- Whatever has been called, no event of an island touches the variables and the islands of other
templates than its own, be it an event that is dispatched, a change of a field or a job that is
due. -/
theorem spares_of_reached {start s : Session} (hstart : start.Unhydrated)
    (hsch : start.scheduler = {}) (h : Reached start s) {island template : String} {m : Mounted}
    (hm : Dict.get? s.mounted island = some m) (ht : m.template = some template) :
    (∀ kind index, Spares template s (s.dispatch island kind index).1) ∧
      (∀ index value, Spares template s (s.change island index value).1) ∧
      (∀ job, Spares template s (s.runJob island job).1) ∧
      ∀ time sch t, s.scheduler.pop time = (sch, some t) → t.payload.1 = island →
        Spares template s (s.popped sch t).1 := by
  have ho := h.holds owned_stable (hstart.owned hsch)
  have hs := h.holds shown_stable hstart.shown
  refine ⟨fun kind index => (fires_dispatch s island kind index).spares ho hs hm ht,
    fun index value => (fires_change s island index value).spares ho hs hm ht,
    fun job => (fires_runJob s island job).spares ho hs hm ht, ?_⟩
  rintro time sch t hpop rfl
  have ho' := ho.pop time
  have hs' := shown_stable.pop time hs
  rw [hpop] at ho' hs'
  have hpopped : Spares template s { s with scheduler := sch } := by
    refine .of_tended rfl rfl rfl (tended_pop ho.numbered hpop) fun x hx => ?_
    obtain rfl := Option.some.inj (hm.symm.trans hx)
    exact ht
  exact hpopped.trans ((fires_runJob _ t.payload.1 t.payload.2).spares ho' hs' hm ht)

/-- A page with a free place for each of two templates. -/
def shared (t : Template) : Session :=
  let (document, container) := ({} : Document).addContainer "root"
  { document := document.mount container
      (.fragment [.island "i" "IfChain" [], .island "j" "IfChain" []])
    templates := [("t", ⟨t, "profile:1"⟩), ("u", ⟨t, "profile:2"⟩)] }

/-- An island of each of the two templates. -/
def couple (t : Template) : Call :=
  .hydrate "root" {} (t.islands.flatMap fun i =>
    [{ i with id := "i", templateId := "t" }, { i with id := "j", templateId := "u" }]) "12:00"

/-- The interval of one island runs, and the one of the other template keeps its timer. -/
theorem spares_shared :
    ∃ t m, (compile {} (pulseMarkup "900")).template? = some t ∧
      Dict.get? ((shared t).call (couple t)).mounted "j" = some m ∧ m.template = some "u" ∧
      (((shared t).call (couple t)).scheduler.jobsOf "j").length = 1 ∧
      Spares "t" ((shared t).call (couple t))
        (((shared t).call (couple t)).dispatch "i" .interval 0).1 := by
  have ht : ((compile {} (pulseMarkup "900")).template?.bind fun t =>
      (Dict.get? ((shared t).call (couple t)).mounted "i").bind fun m =>
        (Dict.get? ((shared t).call (couple t)).mounted "j").map fun m' =>
          decide (m.template = some "t" ∧ m'.template = some "u" ∧
            (((shared t).call (couple t)).scheduler.jobsOf "j").length = 1)) = some true := by
    decide +kernel
  obtain ⟨t, htemplate, ht⟩ := Option.bind_eq_some_iff.1 ht
  obtain ⟨m, hm, ht⟩ := Option.bind_eq_some_iff.1 ht
  obtain ⟨m', hm', hdriven⟩ := Option.map_eq_some_iff.1 ht
  obtain ⟨hone, hother, hjobs⟩ := of_decide_eq_true hdriven
  have hs : (shared t).Unhydrated := ⟨rfl, rfl⟩
  obtain ⟨hdispatch, -⟩ := spares_of_reached hs rfl (.call (couple t) .start) hm hone
  exact ⟨t, m', htemplate, hm', hother, hjobs, hdispatch .interval 0⟩

end Session

end Archipelago
