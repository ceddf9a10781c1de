import Archipelago.Proofs.Store.Listeners
import Archipelago.Proofs.Store.Overwrites
import Mathlib.Data.List.Perm.Basic

/-!
# Batches in another order

Writes of different variables can be made in any order. Two of them commute, values and all, but for
the place in which the names that change are reported; the computed variables look only at whether a
name has changed; and what is saved in another order lies at the same places.
-/

namespace Archipelago

universe u v

/-- Steps of which any two can be taken in either order can all be taken in any order. -/
theorem foldl_perm {α : Type u} {β : Type v} {R : β → β → Prop} (hR : Equivalence R)
    {step : β → α → β} (hstep : ∀ a b b', R b b' → R (step b a) (step b' a)) {as as' : List α}
    (hperm : as.Perm as')
    (hcomm : as.Pairwise fun x y => ∀ b, R (step (step b x) y) (step (step b y) x)) {b b' : β}
    (h : R b b') : R (as.foldl step b) (as'.foldl step b') := by
  have hcongr : ∀ (as : List α) b b', R b b' → R (as.foldl step b) (as.foldl step b') := by
    intro as
    induction as with
    | nil => exact fun _ _ h => h
    | cons a as ih => exact fun b b' h => ih _ _ (hstep a b b' h)
  induction hperm generalizing b b' with
  | nil => exact h
  | cons a _ ih => exact ih hcomm.of_cons (hstep a b b' h)
  | swap x y as =>
    refine hcongr as _ _ (hR.trans ?_ (hstep y _ _ (hstep x _ _ h)))
    exact List.rel_of_pairwise_cons hcomm List.mem_cons_self b
  | trans hfirst _ ih ih' =>
    have hcomm' := hcomm.perm hfirst fun hxy b => hR.symm (hxy b)
    exact hR.trans (ih hcomm h) (ih' hcomm' (hR.refl b'))

/-! ## Maps and names -/

/-- Entries that are there may be written in any order. -/
theorem Dict.insert_comm {α : Type u} {d : Dict α} {name other : String} (hne : name ≠ other)
    (hname : name ∈ keys d) (x y : α) :
    insert (insert d name x) other y = insert (insert d other y) name x := by
  induction d with
  | nil => simp [keys] at hname
  | cons e d ih =>
    obtain ⟨k, z⟩ := e
    by_cases hk : k = name
    · subst hk
      simp [insert, hne]
    · have hd : name ∈ keys d := by simpa [keys, Ne.symm hk] using hname
      by_cases ho : k = other
      · subst ho
        simp [insert, hk]
      · simp [insert, hk, ho, ih hd]

theorem addNew_perm {names names' : List String} (h : names.Perm names') (name : String) :
    (addNew names name).Perm (addNew names' name) := by
  unfold addNew
  by_cases hmem : name ∈ names
  · rwa [if_pos hmem, if_pos (h.mem_iff.1 hmem)]
  · rw [if_neg hmem, if_neg (mt h.mem_iff.2 hmem)]
    exact h.append_right [name]

/-- Which of two names comes first makes no difference but for the order. -/
theorem addNew_comm (names : List String) (name other : String) :
    (addNew (addNew names name) other).Perm (addNew (addNew names other) name) := by
  by_cases heq : name = other
  · rw [heq]
  · by_cases hname : name ∈ names
    · by_cases hother : other ∈ names
      · simp [addNew, hname, hother]
      · simp [addNew, hname, hother]
    · by_cases hother : other ∈ names
      · simp [addNew, hname, hother]
      · simpa [addNew, hname, hother, heq, Ne.symm heq] using
          (List.Perm.swap other name []).append_left names

theorem addAllNew_perm {names more : List String} (h : names.Perm more) :
    (addAllNew [] names).Perm (addAllNew [] more) := by
  rw [List.perm_ext_iff_of_nodup (nodup_addAllNew List.nodup_nil _)
    (nodup_addAllNew List.nodup_nil _)]
  intro name
  rw [mem_addAllNew, mem_addAllNew, h.mem_iff]

namespace Store

variable {s : Store} {ws ws' : List Write}

/-! ## Writing -/

theorem setValue_of_get? {name : String} {v : Variable} (hv : Dict.get? s.vars name = some v)
    (x : Value) :
    s.setValue name x = { s with vars := Dict.insert s.vars name { v with value := x } } := by
  simp only [setValue, hv]

theorem setValue_of_none {name : String} (hv : Dict.get? s.vars name = none) (x : Value) :
    s.setValue name x = s := by
  simp only [setValue, hv]

/-- Values of different variables may be set in any order. -/
theorem setValue_comm (s : Store) {name other : String} (hne : name ≠ other) (x y : Value) :
    (s.setValue name x).setValue other y = (s.setValue other y).setValue name x := by
  have hother := get?_setValue_of_ne s x hne
  have hname := get?_setValue_of_ne s y hne.symm
  cases hv : Dict.get? s.vars name with
  | none => rw [setValue_of_none hv, setValue_of_none (hname.trans hv)]
  | some v =>
    cases hw : Dict.get? s.vars other with
    | none => rw [setValue_of_none hw, setValue_of_none (hother.trans hw)]
    | some w =>
      rw [setValue_of_get? (hother.trans hw), setValue_of_get? (hname.trans hv),
        setValue_of_get? hv, setValue_of_get? hw]
      simp only [Dict.insert_comm hne (Dict.mem_keys_of_get? hv)]

namespace Batch

/-- The same values have been written, and the same names reported, though not in the same order. -/
structure Alike (b b' : Batch) : Prop where
  store : b.store = b'.store
  changed : b.changed.Perm b'.changed

namespace Alike

variable {b b' : Batch}

theorem equivalence : Equivalence Alike where
  refl _ := ⟨rfl, .refl _⟩
  symm h := ⟨h.store.symm, h.changed.symm⟩
  trans h h' := ⟨h.store.trans h'.store, h.changed.trans h'.changed⟩

/-- A write does the same to batches that are alike. -/
theorem write (h : Alike b b') (name : String) (x : Value) :
    Alike (b.write name x) (b'.write name x) := by
  obtain ⟨s, changed⟩ := b
  obtain ⟨s', changed'⟩ := b'
  obtain ⟨rfl, hchanged⟩ := h
  unfold Batch.write
  dsimp only
  split
  · split
    · exact ⟨rfl, hchanged⟩
    · exact ⟨rfl, addNew_perm hchanged name⟩
  · exact ⟨rfl, hchanged⟩

/-- A computed variable looks only at which names have changed. -/
theorem refresh (h : Alike b b') (name : String) : Alike (b.refresh name) (b'.refresh name) := by
  obtain ⟨s, changed⟩ := b
  obtain ⟨s', changed'⟩ := b'
  obtain ⟨rfl, hchanged⟩ := h
  unfold Batch.refresh
  simp only [hchanged.mem_iff]
  split
  · split
    · split
      · exact ⟨rfl, addNew_perm hchanged name⟩
      · exact ⟨rfl, hchanged⟩
    · exact ⟨rfl, hchanged⟩
  · exact ⟨rfl, hchanged⟩

theorem refreshes (h : Alike b b') (names : List String) :
    Alike (names.foldl Batch.refresh b) (names.foldl Batch.refresh b') := by
  induction names generalizing b b' with
  | nil => exact h
  | cons name names ih => exact ih (h.refresh name)

end Alike

theorem write_of_same {b : Batch} {name : String} {x : Value}
    (h : (Dict.get? b.store.vars name).all (·.value.same x) = true) : b.write name x = b := by
  unfold write
  cases hv : Dict.get? b.store.vars name with
  | none => rfl
  | some v =>
    rw [hv] at h
    exact if_pos h

theorem write_of_not_same {b : Batch} {name : String} {x : Value}
    (h : ¬(Dict.get? b.store.vars name).all (·.value.same x) = true) :
    b.write name x = ⟨b.store.setValue name x, addNew b.changed name⟩ := by
  unfold write
  cases hv : Dict.get? b.store.vars name with
  | none =>
    rw [hv] at h
    exact absurd rfl h
  | some v =>
    rw [hv] at h
    exact if_neg h

/-- Whether a value is written depends on its own variable only. -/
theorem write_comm (b : Batch) {name other : String} (hne : name ≠ other) (x y : Value) :
    Alike ((b.write name x).write other y) ((b.write other y).write name x) := by
  have hother := get?_setValue_of_ne b.store x hne
  have hname := get?_setValue_of_ne b.store y hne.symm
  by_cases hx : (Dict.get? b.store.vars name).all (·.value.same x) = true
  · rw [write_of_same hx]
    by_cases hy : (Dict.get? b.store.vars other).all (·.value.same y) = true
    · rw [write_of_same hy, write_of_same hx]
      exact Alike.equivalence.refl _
    · rw [write_of_not_same hy, write_of_same (hname ▸ hx)]
      exact Alike.equivalence.refl _
  · rw [write_of_not_same hx]
    by_cases hy : (Dict.get? b.store.vars other).all (·.value.same y) = true
    · rw [write_of_same hy, write_of_same (hother ▸ hy), write_of_not_same hx]
      exact Alike.equivalence.refl _
    · rw [write_of_not_same hy, write_of_not_same (hother ▸ hy), write_of_not_same (hname ▸ hx)]
      exact ⟨setValue_comm b.store hne x y, addNew_comm b.changed name other⟩

/-- Writes of different variables may be made in any order. -/
theorem writes_perm {staged staged' : List (String × Value)} (h : staged.Perm staged')
    (hnodup : (staged.map (·.1)).Nodup) (b : Batch) :
    Alike (staged.foldl (fun b w => b.write w.1 w.2) b)
      (staged'.foldl (fun b w => b.write w.1 w.2) b) := by
  refine foldl_perm Alike.equivalence (fun w _ _ h => h.write w.1 w.2) h ?_
    (Alike.equivalence.refl b)
  exact (List.pairwise_map.1 hnodup).imp fun hne b => b.write_comm hne _ _

end Batch

/-! ## Staging -/

theorem stageAll_of_forall₂ {staged : List (String × Value)}
    (h : List.Forall₂ (fun w p => s.stage w = .ok p) ws staged) : s.stageAll ws = .ok staged := by
  induction h with
  | nil => rfl
  | cons hfirst _ hmore =>
    rw [stageAll, hfirst, hmore]
    rfl

/-- A batch in another order is checked with the same result. -/
theorem stageAll_perm (h : ws.Perm ws') {staged : List (String × Value)}
    (hstaged : s.stageAll ws = .ok staged) :
    ∃ staged', s.stageAll ws' = .ok staged' ∧ staged.Perm staged' := by
  obtain ⟨staged', hstaged', hperm⟩ := List.perm_comp_forall₂ h.symm (forall₂_stage hstaged)
  exact ⟨staged', stageAll_of_forall₂ hstaged', hperm.symm⟩

/-! ## Saving and telling -/

/-- The same texts are saved, in another order. -/
theorem saves_perm (s : Store) {names names' : List String} (h : names.Perm names') :
    (s.saves names).Perm (s.saves names') :=
  (addAllNew_perm (h.filter _)).filterMap _

/-- The same subscribers are told, in another order. -/
theorem notices_perm (s : Store) {changed changed' : List String} (h : changed.Perm changed') :
    (s.notices changed).Perm (s.notices changed') :=
  h.flatMap_right _

/-- A batch that succeeds does so in any order of its writes. -/
theorem apply_perm (h : ws.Perm ws') (hnodup : (ws.map Write.name).Nodup) {t : Store} {c : Commit}
    (hc : s.apply ws = .ok (t, c)) : ∃ c', s.apply ws' = .ok (t, c') ∧
      c.changed.Perm c'.changed ∧ c.saves.Perm c'.saves ∧ c.notices.Perm c'.notices := by
  obtain ⟨staged, hstaged, heq, hnotices⟩ := apply_eq_ok hc
  obtain ⟨staged', hstaged', hperm⟩ := stageAll_perm h hstaged
  obtain ⟨t', c', hc'⟩ := exists_apply hstaged'
  obtain ⟨again, hagain, heq', hnotices'⟩ := apply_eq_ok hc'
  obtain rfl : staged' = again := Except.ok.inj (hstaged'.symm.trans hagain)
  rw [← names_stageAll hstaged] at hnodup
  have halike := (Batch.writes_perm hperm hnodup ⟨s, []⟩).refreshes s.computedOrder
  rw [heq, heq'] at halike
  obtain ⟨hstore, hchanged⟩ := halike
  obtain rfl : t = t' := hstore
  refine ⟨c', hc', hchanged, ?_, ?_⟩
  · rw [saves_of_apply hc, saves_of_apply hc']
    exact saves_perm t (h.map Write.name)
  · rw [hnotices, hnotices']
    exact notices_perm t hchanged

end Store

/-! ## Storage -/

namespace Memory

theorem lookup_eq_head?_filter (key : String × String)
    (entries : List ((String × String) × String)) :
    entries.lookup key = (entries.filter (·.1 = key)).head?.map (·.2) := by
  induction entries with
  | nil => rfl
  | cons e entries ih =>
    obtain ⟨k, j⟩ := e
    by_cases h : key = k
    · simp [h]
    · simp [List.lookup_cons, beq_false_of_ne h, Ne.symm h, ih]

theorem filter_put (key other : String × String) (json : String)
    (entries : List ((String × String) × String)) :
    (put key json entries).filter (·.1 = other) =
      if key = other then (other, json) :: (entries.filter (·.1 = other)).tail
      else entries.filter (·.1 = other) := by
  induction entries with
  | nil =>
    by_cases h : key = other
    · simp [put, h]
    · simp [put, h]
  | cons e entries ih =>
    obtain ⟨k, j⟩ := e
    rw [put]
    by_cases hk : k = key
    · subst hk
      by_cases h : k = other
      · simp [h]
      · simp [h]
    · rw [if_neg hk]
      by_cases h : k = other
      · subst h
        simp [ih, Ne.symm hk]
      · simp [ih, h]

end Memory

namespace Database

/-- Rows with different keys may be put in any order. -/
theorem upsert_comm {v w : StoredVariable} (hne : v.key ≠ w.key) (rows : List StoredVariable) :
    upsert v (upsert w rows) = upsert w (upsert v rows) := by
  have hlt := lt_or_gt_of_ne hne
  have hasymm : ¬(v.key < w.key ∧ w.key < v.key) := fun h => lt_asymm h.1 h.2
  induction rows with
  | nil => grind [upsert]
  | cons r rows ih =>
    have hv : v.key < w.key → w.key < r.key → v.key < r.key := lt_trans
    have hw : w.key < v.key → v.key < r.key → w.key < r.key := lt_trans
    grind [upsert]

end Database

namespace Storage

/-- The same texts at each place. The rows of a database are in order, but the entries of a memory
may have come in another one. -/
inductive Alike : Storage → Storage → Prop
  | memory {m m' : Memory} (failsLoad failsSave : Bool)
      (h : ∀ place, m.entries.filter (·.1 = place) = m'.entries.filter (·.1 = place)) :
      Alike (memory m failsLoad failsSave) (memory m' failsLoad failsSave)
  | database (d : Database) : Alike (database d) (database d)

namespace Alike

variable {s s' : Storage}

theorem equivalence : Equivalence Alike where
  refl s := by
    cases s with
    | memory m failsLoad failsSave => exact .memory failsLoad failsSave fun _ => rfl
    | database d => exact .database d
  symm h := by
    cases h with
    | memory failsLoad failsSave h => exact .memory failsLoad failsSave fun place => (h place).symm
    | database d => exact .database d
  trans h h' := by
    cases h with
    | memory failsLoad failsSave h =>
      obtain ⟨_, _, h'⟩ := h'
      exact .memory failsLoad failsSave fun place => (h place).trans (h' place)
    | database d => exact h'

theorem save (h : Alike s s') (scope name json : String) :
    Alike (s.save scope name json) (s'.save scope name json) := by
  cases h with
  | memory failsLoad failsSave h =>
    cases failsSave with
    | true => exact .memory failsLoad true h
    | false =>
      refine .memory failsLoad false fun place => ?_
      simp only [Memory.save, Memory.filter_put, h place]
  | database d => exact .database _

/-- Storages that are alike give the same texts. -/
theorem load_eq (h : Alike s s') (scope name : String) :
    s.load scope name = s'.load scope name := by
  cases h with
  | memory failsLoad failsSave h =>
    simp only [Storage.load, Memory.load, Memory.lookup_eq_head?_filter, h]
  | database d => rfl

end Alike

theorem save_comm (s : Storage) (scope : String) {name other : String} (hne : name ≠ other)
    (json json' : String) : Alike ((s.save scope name json).save scope other json')
      ((s.save scope other json').save scope name json) := by
  cases s with
  | memory m failsLoad failsSave =>
    cases failsSave with
    | true => exact Alike.equivalence.refl _
    | false =>
      refine .memory failsLoad false fun place => ?_
      simp only [Memory.save, Memory.filter_put]
      by_cases hname : (scope, name) = place
      · have hother : (scope, other) ≠ place := fun h =>
          hne (Prod.mk.inj (hname.trans h.symm)).2
        simp only [if_pos hname, if_neg hother]
      · simp only [if_neg hname]
  | database d =>
    have hkey :
        (StoredVariable.mk scope name json).key ≠ (StoredVariable.mk scope other json').key :=
      mt StoredVariable.keyOf_inj.1 hne
    have hcomm : (d.save scope name json).save scope other json' =
        (d.save scope other json').save scope name json :=
      congrArg Database.mk (Database.upsert_comm hkey d.rows).symm
    show Alike (database _) (database _)
    rw [hcomm]
    exact .database _

/-- Texts of different names can be saved in any order. -/
theorem saveAll_perm (s : Storage) (scope : String) {saves saves' : List (String × String)}
    (h : saves.Perm saves') (hnodup : (saves.map (·.1)).Nodup) :
    Alike (s.saveAll scope saves) (s.saveAll scope saves') := by
  refine foldl_perm Alike.equivalence (fun e _ _ h => h.save scope e.1 e.2) h ?_
    (Alike.equivalence.refl s)
  exact (List.pairwise_map.1 hnodup).imp fun hne s => s.save_comm scope hne _ _

end Storage

/-! ## Stores at work -/

namespace LiveStore

/-- The same variables with the same values, the same texts kept, and the same subscribers told the
same, though neither kept nor told in the same order. -/
structure Alike (l l' : LiveStore) : Prop where
  store : l.kept.store = l'.kept.store
  storage : Option.Rel Storage.Alike l.kept.storage l'.kept.storage
  told : l.told.Perm l'.told

/-- The same text is kept for each name. -/
theorem Alike.load_eq {l l' : LiveStore} (h : l.Alike l') (name : String) :
    l.kept.load name = l'.kept.load name := by
  have hstorage := h.storage
  unfold KeptStore.load
  rw [h.store]
  generalize l.kept.storage = storage, l'.kept.storage = storage' at hstorage ⊢
  cases hstorage with
  | none => rfl
  | some halike => exact halike.load_eq _ name

theorem alike_after (l : LiveStore) (s : Store) {saves saves' : List (String × String)}
    (hsaves : saves.Perm saves') (hnodup : (saves.map (·.1)).Nodup) {notices notices' : List Notice}
    (hnotices : notices.Perm notices') :
    Alike (l.after s saves notices) (l.after s saves' notices') := by
  refine ⟨rfl, ?_, hnotices.append_left l.told⟩
  show Option.Rel _ (l.kept.storage.map _) (l.kept.storage.map _)
  cases l.kept.storage with
  | none => exact .none
  | some storage => exact .some (storage.saveAll_perm s.scope hsaves hnodup)

/-- Writes of different variables can be given to a store in any order. Either all orders of them
succeed, with the same values and kept texts and with the same names reported once each, or all of
them fail and leave the store as it was. -/
theorem run_apply_perm (l : LiveStore) {ws ws' : List Write} (h : ws.Perm ws')
    (hnodup : (ws.map Write.name).Nodup) :
    (∃ changed changed' after after', (LiveStore.apply ws).run l = (.ok changed, after) ∧
      (LiveStore.apply ws').run l = (.ok changed', after') ∧ after.Alike after' ∧
      changed.Nodup ∧ changed.Perm changed') ∨
    ∃ e e', (LiveStore.apply ws).run l = (.error e, l) ∧
      (LiveStore.apply ws').run l = (.error e', l) := by
  have hnodup' : (ws'.map Write.name).Nodup := (h.map Write.name).nodup_iff.1 hnodup
  rw [run_apply, run_apply]
  cases hc : l.kept.store.apply ws with
  | ok r =>
    obtain ⟨s, c⟩ := r
    obtain ⟨c', hc', hchanged, hsaves, hnotices⟩ := Store.apply_perm h hnodup hc
    have hsaved : (c.saves.map (·.1)).Nodup := by
      rw [Store.saves_of_apply hc]
      exact Store.nodup_saves s _
    rw [hc']
    exact .inl ⟨c.changed, c'.changed, _, _, rfl, rfl, l.alike_after s hsaves hsaved hnotices,
      Store.nodup_changed hc, hchanged⟩
  | error e =>
    cases hc' : l.kept.store.apply ws' with
    | ok r =>
      obtain ⟨c, hok, -⟩ := Store.apply_perm h.symm hnodup' hc'
      rw [hc] at hok
      cases hok
    | error e' => exact .inr ⟨e, e', rfl, rfl⟩

/-- A price and a label that are kept in a memory, and twice the price. -/
def priced : List Request :=
  [.equip [] .undefined {} "shop" (some (.memory {} false false)),
    .declare { name := "label", type := .string, initial := .string "A", persist := true },
    .declare { name := "price", type := .number, initial := .number 100, persist := true },
    .declare { name := "total", type := .computed, initial := .undefined
               expression := some "$vars.price * 2" }]

/-- Label and price are written in both orders, and reported and kept in both. -/
theorem run_apply_perm_priced : ∃ after after',
    (LiveStore.apply [.set "label" (.string "B"), .set "price" (.number 10)]).run
      (serve { kept := ⟨{}, none⟩ } priced) = (.ok ["label", "price", "total"], after) ∧
    (LiveStore.apply [.set "price" (.number 10), .set "label" (.string "B")]).run
      (serve { kept := ⟨{}, none⟩ } priced) = (.ok ["price", "label", "total"], after') ∧
    after.Alike after' ∧ ∀ name, after.kept.load name = after'.kept.load name := by
  have hchanged : ((LiveStore.apply [.set "label" (.string "B"), .set "price" (.number 10)]).run
      (serve { kept := ⟨{}, none⟩ } priced)).1 = .ok ["label", "price", "total"] := by
    decide +kernel
  have hchanged' : ((LiveStore.apply [.set "price" (.number 10), .set "label" (.string "B")]).run
      (serve { kept := ⟨{}, none⟩ } priced)).1 = .ok ["price", "label", "total"] := by
    decide +kernel
  have hboth := run_apply_perm (serve { kept := ⟨{}, none⟩ } priced)
    (List.Perm.swap (.set "price" (.number 10)) (.set "label" (.string "B")) []) (by decide)
  obtain ⟨changed, changed', after, after', hrun, hrun', halike, -⟩ | ⟨e, _, hrun, -⟩ := hboth
  · rw [hrun] at hchanged
    rw [hrun'] at hchanged'
    obtain rfl := Except.ok.inj hchanged
    obtain rfl := Except.ok.inj hchanged'
    exact ⟨after, after', hrun, hrun', halike, halike.load_eq⟩
  · rw [hrun] at hchanged
    cases hchanged

end LiveStore

end Archipelago
