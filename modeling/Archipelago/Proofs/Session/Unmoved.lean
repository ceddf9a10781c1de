import Archipelago.Proofs.Session.Sound

/-!
# What events leave where it is

An event renders islands anew, and that is all that it does to a page. No island comes, goes or
moves, no attribute changes, and the same templates have stores as before.
-/

namespace Archipelago

namespace Session

/-- An island without what each rendering gives it anew. -/
def Mounted.bare (m : Mounted) : Mounted := { m with handlers := [], timers := [] }

/-- The islands are the same but for their renderings, and the document is but for its content. -/
structure Unmoved (s s' : Session) : Prop where
  islands : ∀ id,
    (Dict.get? s'.mounted id).map Mounted.bare = (Dict.get? s.mounted id).map Mounted.bare
  attrs : ∀ n name, s'.document.attr? n name = s.document.attr? n name
  stores : ∀ t, (Dict.get? s'.stores t).isSome = (Dict.get? s.stores t).isSome

namespace Unmoved

variable {s s' s'' : Session}

theorem refl (s : Session) : Unmoved s s := ⟨fun _ => rfl, fun _ _ => rfl, fun _ => rfl⟩

theorem trans (h : Unmoved s s') (h' : Unmoved s' s'') : Unmoved s s'' where
  islands id := (h'.islands id).trans (h.islands id)
  attrs n name := (h'.attrs n name).trans (h.attrs n name)
  stores t := (h'.stores t).trans (h.stores t)

theorem symm (h : Unmoved s s') : Unmoved s' s where
  islands id := (h.islands id).symm
  attrs n name := (h.attrs n name).symm
  stores t := (h.stores t).symm

theorem exists_bare (h : Unmoved s s') {id : String} {m : Mounted}
    (hm : Dict.get? s.mounted id = some m) :
    ∃ m', Dict.get? s'.mounted id = some m' ∧ m'.bare = m.bare := by
  have hbare := h.islands id
  rw [hm] at hbare
  exact Option.map_eq_some_iff.1 hbare

theorem of_eq (h : Unmoved s s') (hd : s''.document = s'.document)
    (hm : s''.mounted = s'.mounted) (hs : s''.stores = s'.stores) : Unmoved s s'' where
  islands := hm ▸ h.islands
  attrs := hd ▸ h.attrs
  stores := hs ▸ h.stores

theorem rerender (store : Store) {m : Mounted} (hm : Dict.get? s.mounted m.island.id = some m) :
    Unmoved s (s.rerender store m) := by
  obtain ⟨timers, hmounted, hdocument, hstores, -⟩ := rerender_eq s store m
  refine ⟨fun id => ?_, fun n name => ?_, fun t => by rw [hstores]⟩
  · rw [hmounted, Dict.get?_insert]
    split
    · rename_i he
      rw [← he, hm]
      rfl
    · rfl
  · rw [hdocument]
    exact Document.attr?_setInnerHtml _ _ _ _ _

theorem refresh (hs : s.Sound) (template : String) (store : Store) (names : List String) :
    Unmoved s (s.refresh template store names).1 :=
  hs.refresh_rec (.refl s) template store names fun _ _ h hm _ => h.trans (.rerender store hm)

theorem fire (hs : s.Sound) (island : String) {run : Trace → Outcome} (hrun : ByBatches run) :
    Unmoved s (s.fire island run).1 := by
  rcases fire_cases s island hrun with he | ⟨m, template, store, u, storage, pending, -, -, hstore,
    hreach, he⟩
  · rw [he]
    exact .refl s
  · have hheard : u.store.Heard := (hs.heard template store hstore).of_frame hreach.frame.symm
    have hstart : Unmoved s
        { s with stores := Dict.insert s.stores template u.store, storage } := by
      refine ⟨fun _ => rfl, fun _ _ => rfl, fun t => ?_⟩
      rw [Dict.get?_insert]
      split
      · rename_i ht
        rw [← ht, hstore]
        rfl
      · rfl
    rw [he]
    exact (hstart.trans (.refresh (hs.store template hheard storage) template u.store _)).of_eq
      rfl rfl rfl

end Unmoved

/-! ## Events -/

/-- What a call or a job makes of a session is what one event of an island makes of it, or
nothing. -/
def Fires (s : Session) (island : String) (s' : Session) : Prop :=
  s' = s ∨ ∃ run, ByBatches run ∧ s' = (s.fire island run).1

theorem fires_dispatch (s : Session) (island : String) (kind : EventKind) (index : Nat) :
    s.Fires island (s.dispatch island kind index).1 := by
  unfold dispatch
  split
  · exact .inl rfl
  · split
    · exact .inl rfl
    · exact .inr ⟨_, run_byBatches _ _, rfl⟩

theorem fires_change (s : Session) (island : String) (index : Nat) (value : Value) :
    s.Fires island (s.change island index value).1 := by
  unfold change
  split
  · exact .inl rfl
  · split
    · exact .inr ⟨_, field_byBatches _ _ _ _, rfl⟩
    · exact .inl rfl

theorem fires_runJob (s : Session) (island : String) (job : Job) :
    s.Fires island (s.runJob island job).1 := by
  cases job with
  | interval index =>
    show s.Fires island (s.tick island index).1
    unfold tick
    split
    · exact .inl rfl
    · exact .inr ⟨_, run_byBatches _ _, rfl⟩
  | resume c =>
    unfold runJob
    by_cases h : Dict.contains s.mounted island = true
    · simp only [if_pos h]
      exact .inr ⟨_, resume_byBatches c, rfl⟩
    · simp only [if_neg h]
      exact .inl rfl

theorem Fires.unmoved {s s' : Session} {island : String} (h : s.Fires island s') (hs : s.Sound) :
    Unmoved s s' := by
  rcases h with rfl | ⟨run, hrun, rfl⟩
  · exact .refl s'
  · exact .fire hs island hrun

theorem Fires.sound {s s' : Session} {island : String} (h : s.Fires island s') (hs : s.Sound) :
    s'.Sound := by
  rcases h with rfl | ⟨run, hrun, rfl⟩
  · exact hs
  · exact hs.fire island hrun

end Session

end Archipelago
