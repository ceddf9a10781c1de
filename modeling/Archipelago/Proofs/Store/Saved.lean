import Archipelago.Proofs.Storage
import Archipelago.Proofs.Store.Typed
import Archipelago.Proofs.Value.Rereading

/-!
# What is kept of a store

A batch saves the persisted variables that it writes, with the values that it leaves, and of the
others it leaves both the value and the text that is kept. So each persisted variable either has the
text of its value kept or has never been written.
-/

namespace Archipelago

namespace Store

variable {s s' : Store} {ws : List Write} {c : Commit}

theorem saves_of_apply (h : s.apply ws = .ok (s', c)) : c.saves = s'.saves (ws.map Write.name) := by
  obtain ⟨staged, hstaged, he⟩ := bind_eq_ok.1 h
  obtain ⟨rfl, rfl⟩ := Prod.mk.inj (Except.ok.inj he)
  rw [← names_stageAll hstaged]

/-! ## What is saved -/

theorem mem_persistedNames {names : List String} {name : String} {v : Variable}
    (hv : Dict.get? s.vars name = some v) :
    name ∈ s.persistedNames names ↔ name ∈ names ∧ v.decl.persist = true := by
  rw [persistedNames, mem_addAllNew, List.mem_filter, hv]
  simp

theorem names_saves_sublist (s : Store) (names : List String) :
    ((s.saves names).map (·.1)).Sublist (s.persistedNames names) := by
  unfold saves
  induction s.persistedNames names with
  | nil => exact .slnil
  | cons name names ih =>
    rw [List.filterMap_cons]
    cases Dict.get? s.vars name with
    | none => exact ih.cons name
    | some v => exact ih.cons_cons name

theorem nodup_saves (s : Store) (names : List String) : ((s.saves names).map (·.1)).Nodup :=
  (nodup_addAllNew List.nodup_nil _).sublist (names_saves_sublist s names)

theorem mem_saves {names : List String} {name : String} {v : Variable}
    (hv : Dict.get? s.vars name = some v) (hpersist : v.decl.persist = true)
    (hname : name ∈ names) :
    (name, v.value.jsonText) ∈ s.saves names := by
  refine List.mem_filterMap.2 ⟨name, (mem_persistedNames hv).2 ⟨hname, hpersist⟩, ?_⟩
  rw [hv]
  rfl

/-- A variable that can be written and is not written has the value it had. -/
theorem get?_apply_of_notMem (hs : s.Coherent) (h : s.apply ws = .ok (s', c)) {name : String}
    {v : Variable} (hv : Dict.get? s'.vars name = some v)
    (hwritable : v.decl.type.isReadOnly = false)
    (hname : name ∉ ws.map Write.name) : Dict.get? s.vars name = some v := by
  obtain ⟨staged, hstaged, heq, -⟩ := apply_eq_ok h
  have hframe := (apply_tracks h).frame
  have hcoherent := hs.of_frame hframe.symm
  have hexpr : ¬v.expr.isSome := fun he => by
    rw [hcoherent.isReadOnly_of_expr hv he] at hwritable
    cases hwritable
  have hwritten : ∀ w ∈ staged, w.1 ≠ name := by
    rintro w hw rfl
    refine hname ?_
    rw [← names_stageAll hstaged]
    exact List.mem_map_of_mem hw
  have hcomputed : name ∉ s.computedOrder := by
    intro hname
    rw [← computedOrder_eq hframe, hcoherent.isOrder.mem_iff] at hname
    obtain ⟨w, hw, he⟩ := expr_isSome_of_mem_graph hcoherent.nodup hname
    exact hexpr (Option.some.inj (hv.symm.trans hw) ▸ he)
  have hkept := (Batch.get?_refreshes_of_notMem hcomputed).trans
    (Batch.get?_writes_of_notMem (b := ⟨s, []⟩) hwritten)
  rw [heq] at hkept
  exact hkept.symm.trans hv

end Store

/-! ## Storage that works -/

namespace LiveStore

variable {l : LiveStore} {storage : Storage} {ws : List Write} {s : Store} {c : Commit}

theorem storage_after (hstorage : l.kept.storage = some storage) (hworks : storage.Works)
    (s : Store)
    (saves : List (String × String)) (notices : List Notice) :
    ∃ after, (l.after s saves notices).kept.storage = some after ∧ after.Works := by
  refine ⟨storage.saveAll s.scope saves, ?_, hworks.saveAll _ _⟩
  show l.kept.storage.map _ = _
  rw [hstorage]
  rfl

section Batch

variable (hstorage : l.kept.storage = some storage) (hworks : storage.Works)
  (h : l.kept.store.apply ws = .ok (s, c))
include hstorage hworks h

/-- A persisted variable that is written has the text of its value kept. -/
theorem load_after_of_mem {name : String} {v : Variable} (hv : Dict.get? s.vars name = some v)
    (hpersist : v.decl.persist = true) (hname : name ∈ ws.map Write.name) :
    (l.after s c.saves c.notices).kept.load name = some v.value.jsonText := by
  show (l.kept.storage.map _).bind _ = _
  rw [hstorage, Store.saves_of_apply h]
  exact hworks.load_saveAll_of_mem (Store.nodup_saves s _) (Store.mem_saves hv hpersist hname)

/-- What is kept for a variable that is not written stays. -/
theorem load_after_of_notMem {name : String} (hname : name ∉ ws.map Write.name) :
    (l.after s c.saves c.notices).kept.load name = l.kept.load name := by
  have hscope := Store.scope_eq (Store.apply_tracks h).frame
  have hsaved : name ∉ (s.saves (ws.map Write.name)).map (·.1) := fun hm => by
    have hmem := (Store.names_saves_sublist s _).subset hm
    unfold Store.persistedNames at hmem
    rw [mem_addAllNew] at hmem
    exact hname (List.mem_of_mem_filter (hmem.resolve_left List.not_mem_nil))
  show (l.kept.storage.map _).bind _ = l.kept.storage.bind _
  rw [hstorage, Store.saves_of_apply h, Option.map_some, Option.bind_some, Option.bind_some]
  rw [← hscope]
  exact hworks.load_saveAll_of_notMem hsaved

end Batch

/-- A store over a storage that works. Of each persisted variable that can be written the storage
has the text of its value, or else it has nothing and the variable still has its initial value. -/
structure Stocked (l : LiveStore) : Prop where
  coherent : l.kept.store.Coherent
  works : ∃ storage, l.kept.storage = some storage ∧ storage.Works
  kept : ∀ name v, Dict.get? l.kept.store.vars name = some v → v.decl.persist = true →
    v.decl.type.isReadOnly = false → l.kept.load name = some v.value.jsonText ∨
      l.kept.load name = none ∧ v.decl.type.coerce v.decl.name v.decl.initial = .ok v.value

namespace Stocked

theorem after (hl : l.Stocked) (h : l.kept.store.apply ws = .ok (s, c)) :
    (l.after s c.saves c.notices).Stocked := by
  obtain ⟨storage, hstorage, hworks⟩ := hl.works
  refine ⟨hl.coherent.of_frame (Store.apply_tracks h).frame.symm,
    storage_after hstorage hworks s c.saves c.notices,
    fun name v hv hpersist hwritable => ?_⟩
  by_cases hname : name ∈ ws.map Write.name
  · exact .inl (load_after_of_mem hstorage hworks h hv hpersist hname)
  · have hbefore := Store.get?_apply_of_notMem hl.coherent h hv hwritable hname
    rw [load_after_of_notMem hstorage hworks h hname]
    exact hl.kept name v hbefore hpersist hwritable

theorem performAll (hl : l.Stocked) (deeds : List Deed) : (l.performAll deeds).Stocked :=
  performAll_keeps (fun _ _ _ _ hl h => hl.after h) hl deeds

end Stocked

end LiveStore

end Archipelago
