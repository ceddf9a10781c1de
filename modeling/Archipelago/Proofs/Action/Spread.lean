import Archipelago.Proofs.Action.Targets
import Archipelago.Proofs.Store.Reports

/-!
# How far a change spreads

A batch changes what it writes, and of the computed variables those that read something that has
changed, so a change reaches along what computed variables read and no farther. A run of actions
starts from its targets each time, and no batch changes what a computed variable reads.
-/

namespace Archipelago

namespace Store

/-- The variables that follow the named ones: these themselves, and each computed variable that
reads one that follows them. -/
inductive Follows (s : Store) (names : List String) : String → Prop
  | named {name : String} : name ∈ names → Follows s names name
  | computed {name dep : String} {v : Variable} : Dict.get? s.vars name = some v →
      v.expr.isSome = true → dep ∈ v.dependencies → Follows s names dep → Follows s names name

variable {s t : Store} {names : List String}

theorem Follows.of_frame (hf : s.frame = t.frame) {name : String} (h : s.Follows names name) :
    t.Follows names name := by
  induction h with
  | named hname => exact .named hname
  | computed hv hcomputed hreads _ ih =>
    obtain ⟨w, hw, -, hexpr⟩ := get?_of_frame hf hv
    refine .computed hw (hexpr ▸ hcomputed) ?_ ih
    rwa [Variable.dependencies, ← hexpr]

/-! ## One batch -/

namespace Batch

variable {b : Batch}

/-- A refresh reports a computed variable that reads something that is reported. -/
theorem of_mem_changed_refresh {name other : String} (h : other ∈ (b.refresh name).changed) :
    other ∈ b.changed ∨ other = name ∧ ∃ v, Dict.get? b.store.vars name = some v ∧
      v.expr.isSome = true ∧ ∃ dep ∈ v.dependencies, dep ∈ b.changed := by
  unfold refresh at h
  cases hv : Dict.get? b.store.vars name with
  | none =>
    rw [hv] at h
    exact .inl h
  | some v =>
    simp only [hv] at h
    by_cases hreads : (v.dependencies.any fun dep => dep ∈ b.changed) = true
    · rw [if_pos hreads] at h
      cases hr : b.store.recompute? name with
      | none =>
        rw [hr] at h
        exact .inl h
      | some s' =>
        rw [hr] at h
        refine (mem_addNew.1 h).imp_right fun heq => ⟨heq, v, rfl, ?_, ?_⟩
        · obtain ⟨w, e, hw, he, -⟩ := recompute?_eq_some hr
          obtain rfl := Option.some.inj (hv.symm.trans hw)
          exact Option.isSome_of_mem he
        · simpa using hreads
    · rw [if_neg hreads] at h
      exact .inl h

theorem follows_writes {staged : List (String × Value)} (hstaged : ∀ w ∈ staged, w.1 ∈ names)
    {name : String}
    (h : name ∈ (staged.foldl (fun b w => b.write w.1 w.2) (⟨s, []⟩ : Batch)).changed) :
    s.Follows names name := by
  obtain h | ⟨-, -, x, hx, -⟩ := (mem_changed_writes _ staged name).1 h
  · cases h
  · exact .named (hstaged _ (mem_offers.1 hx))

/-- What follows the names is all that is reported, as the computed variables take their turns. -/
theorem follows_refreshes (ht : Tracks s b) (hb : ∀ name ∈ b.changed, s.Follows names name)
    (order : List String) :
    ∀ name ∈ (order.foldl Batch.refresh b).changed, s.Follows names name := by
  induction order generalizing b with
  | nil => exact hb
  | cons first order ih =>
    refine ih (ht.refresh first) fun name h => ?_
    obtain h | ⟨rfl, v, hv, hcomputed, dep, hreads, hdep⟩ := of_mem_changed_refresh h
    · exact hb name h
    · obtain ⟨w, hw, -, hexpr⟩ := get?_of_frame ht.frame hv
      refine .computed hw (hexpr ▸ hcomputed) ?_ (hb dep hdep)
      rwa [Variable.dependencies, ← hexpr]

end Batch

/-- A batch reports only what follows the names that it writes. -/
theorem follows_of_mem_changed {ws : List Write} {s' : Store} {c : Commit}
    (h : s.apply ws = .ok (s', c)) (hws : ∀ w ∈ ws, w.name ∈ names) :
    ∀ name ∈ c.changed, s.Follows names name := by
  obtain ⟨staged, hstaged, heq, -⟩ := apply_eq_ok h
  have hwritten : ∀ w ∈ staged, w.1 ∈ names := by
    intro p hp
    obtain ⟨w, hw, hstage⟩ := exists_stage hstaged p hp
    obtain ⟨-, -, -, hname, -⟩ := stage_eq_ok hstage
    exact hname ▸ hws w hw
  have hreported := Batch.follows_refreshes ((Batch.Tracks.start s).writes staged)
    (fun _ => Batch.follows_writes hwritten) s.computedOrder
  rwa [heq] at hreported

end Store

/-! ## Runs -/

namespace Trace

variable {names : List String} {t u : Trace}

theorem Writes.frame (h : Writes names t u) : u.store.frame = t.store.frame :=
  h.preserves (P := fun s => s.frame = t.store.frame)
    (fun _ _ _ _ hs _ ha => (Store.apply_tracks ha).frame.trans hs) rfl

/-- A run reports only what follows the variables that it writes, besides what has been reported. -/
theorem Writes.follows_of_mem_changed (h : Writes names t u) {name : String}
    (hname : name ∈ u.changed) : name ∈ t.changed ∨ t.store.Follows names name := by
  induction h with
  | refl => exact .inl hname
  | batch hu hws ha ih =>
    obtain hname | hname := mem_addAllNew.1 hname
    · exact ih hname
    · exact .inr ((Store.follows_of_mem_changed ha hws name hname).of_frame hu.frame)

/-- A variable that does not follow those that are written is the very same. -/
theorem Writes.get?_of_not_follows (h : Writes names t u) {name : String}
    (hname : ¬t.store.Follows names name) :
    Dict.get? u.store.vars name = Dict.get? t.store.vars name := by
  induction h with
  | refl => rfl
  | batch hu hws ha ih =>
    refine Eq.trans ((Store.apply_tracks ha).kept name fun hmem => hname ?_) ih
    exact (Store.follows_of_mem_changed ha hws name hmem).of_frame hu.frame

end Trace

namespace Action

theorem runStep_writes (locals : Dict Value) (a : Action) (t : Trace) :
    t.Writes a.targets (lastTrace Prod.fst (runStep locals a t)) := by
  have hrun := (steps_write locals).2 a t (List.Subset.refl a.targets) (.refl t)
  cases hr : runStep locals a t with
  | error f => exact hrun.error hr
  | ok r => exact (hrun.ok hr).1

/-- An action that is executed, up to its first delay or to the step that fails, changes none but
its targets and the computed variables that follow them, and reports no others. -/
theorem runStep_follows (s : Store) (locals : Dict Value) (a : Action) :
    let t := lastTrace Prod.fst (runStep locals a { store := s })
    (∀ name, t.store.get name ≠ s.get name → s.Follows a.targets name) ∧
      ∀ name ∈ t.changed, s.Follows a.targets name := by
  have hwrites := runStep_writes locals a { store := s }
  refine ⟨fun name hne => ?_, fun name hname => ?_⟩
  · by_contra hfollows
    refine hne ?_
    rw [Store.get, Store.get, hwrites.get?_of_not_follows hfollows]
  · exact (hwrites.follows_of_mem_changed hname).resolve_left List.not_mem_nil

end Action

end Archipelago
