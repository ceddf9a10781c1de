import Archipelago.Proofs.Store.Listeners
import Archipelago.Proofs.Store.Overwrites

/-!
# What a batch reports

A name is reported as soon as one of its writes meets another value, and it stays reported when a
later write of the same batch brings the first value back. A computed variable is evaluated at most
once, after all writes, so of those only changes that last are reported.
-/

namespace Archipelago

namespace Store

variable {s s' : Store} {ws : List Write} {c : Commit}

/-- The values of a variable differ between two stores, as stores compare values. -/
def Differs (s t : Store) (name : String) : Prop :=
  ∃ v w, Dict.get? s.vars name = some v ∧ Dict.get? t.vars name = some w ∧
    v.value.same w.value = false

/-- One of the writes of a variable is of another value than the one from before the batch. -/
def Moves (s : Store) (ws : List Write) (name : String) : Prop :=
  ∃ w ∈ ws, w.name = name ∧ ∃ v x, Dict.get? s.vars name = some v ∧
    v.decl.type.coerce name (w.offered v.decl) = .ok x ∧ v.value.same x = false

/-! ## Writes -/

theorem moves_iff {staged : List (String × Value)} (h : s.stageAll ws = .ok staged)
    {name : String} :
    s.Moves ws name ↔ ∃ v, Dict.get? s.vars name = some v ∧
      ∃ x ∈ offers staged name, v.value.same x = false := by
  constructor
  · rintro ⟨w, hw, rfl, v, x, hv, hcoerce, hdiffers⟩
    obtain ⟨p, hp, hstage⟩ := exists_of_forall₂ (forall₂_stage h) w hw
    obtain ⟨v', hv', -, hname, hcoerce'⟩ := stage_eq_ok hstage
    obtain rfl := Option.some.inj (hv.symm.trans hv')
    obtain rfl : x = p.2 := Except.ok.inj (hcoerce.symm.trans hcoerce')
    exact ⟨v, hv, p.2, mem_offers.2 (hname ▸ hp), hdiffers⟩
  · rintro ⟨v, hv, x, hx, hdiffers⟩
    obtain ⟨w, hw, hstage⟩ := exists_stage h _ (mem_offers.1 hx)
    obtain ⟨v', hv', -, rfl, hcoerce⟩ := stage_eq_ok hstage
    obtain rfl := Option.some.inj (hv.symm.trans hv')
    exact ⟨w, hw, rfl, v, x, hv, hcoerce, hdiffers⟩

namespace Batch

variable {b : Batch}

/-- A write reports its name if it meets another value. -/
theorem mem_changed_write {name other : String} {x : Value} :
    other ∈ (b.write name x).changed ↔ other ∈ b.changed ∨
      name = other ∧ ∃ v, Dict.get? b.store.vars other = some v ∧ v.value.same x = false := by
  unfold Batch.write
  cases hv : Dict.get? b.store.vars name with
  | none => grind
  | some v =>
    by_cases hsame : v.value.same x = true
    · grind
    · grind [mem_addNew]

/-- Writes of equal values leave the first value where it is, so the first write that reports a name
is the first one of another value than that. -/
theorem mem_changed_writes (b : Batch) (staged : List (String × Value)) (name : String) :
    name ∈ (staged.foldl (fun b w => b.write w.1 w.2) b).changed ↔ name ∈ b.changed ∨
      ∃ v, Dict.get? b.store.vars name = some v ∧
        ∃ x ∈ offers staged name, v.value.same x = false := by
  induction staged generalizing b with
  | nil => simp [offers]
  | cons w staged ih =>
    rw [List.foldl_cons, ih, mem_changed_write, get?_write, offers_cons, or_assoc]
    refine or_congr_right ?_
    by_cases hname : w.1 = name
    · rw [if_pos hname, if_pos hname]
      cases hv : Dict.get? b.store.vars name with
      | none => simp
      | some v =>
        by_cases hsame : v.value.same w.2 = true
        · simp [hname, Value.overwrite, hsame]
        · simp [hname, Value.overwrite, hsame]
    · simp [hname]

end Batch

/-! ## Computed variables -/

/-- Only another value is stored when a variable is evaluated anew. -/
theorem differs_of_recompute? {name : String} (h : s.recompute? name = some s') :
    Differs s s' name := by
  unfold recompute? at h
  split at h
  · rename_i decl old e hv
    dsimp only at h
    split at h
    · cases h
    · rename_i hsame
      obtain rfl := Option.some.inj h
      exact ⟨_, _, hv, get?_setValue_self hv _, Bool.eq_false_iff.2 hsame⟩
  · cases h

namespace Batch

variable {b : Batch}

theorem changed_subset_refresh (b : Batch) (name : String) :
    b.changed ⊆ (b.refresh name).changed := by
  unfold Batch.refresh
  split
  · split
    · split
      · exact fun other h => mem_addNew.2 (.inl h)
      · exact List.Subset.refl _
    · exact List.Subset.refl _
  · exact List.Subset.refl _

/-- What a refresh reports anew has another value. -/
theorem differs_of_refresh {name other : String} (h : other ∈ (b.refresh name).changed)
    (hnew : other ∉ b.changed) : other = name ∧ Differs b.store (b.refresh name).store name := by
  unfold Batch.refresh at h ⊢
  cases hv : Dict.get? b.store.vars name with
  | none =>
    rw [hv] at h
    exact absurd h hnew
  | some v =>
    simp only [hv] at h ⊢
    by_cases hreads : (v.dependencies.any fun dep => dep ∈ b.changed) = true
    · rw [if_pos hreads] at h ⊢
      cases hr : b.store.recompute? name with
      | none =>
        rw [hr] at h
        exact absurd h hnew
      | some s' =>
        rw [hr] at h
        exact ⟨(mem_addNew.1 h).resolve_left hnew, differs_of_recompute? hr⟩
    · rw [if_neg hreads] at h
      exact absurd h hnew

/-- Each variable is evaluated once: what is reported anew has been as it was at first until its
turn comes, and stays as it is from then on. -/
theorem differs_of_refreshes (ht : Tracks s b) {names : List String} (hn : names.Nodup)
    {name : String} (h : name ∈ (names.foldl Batch.refresh b).changed) :
    name ∈ b.changed ∨ Differs s (names.foldl Batch.refresh b).store name := by
  induction names generalizing b with
  | nil => exact .inl h
  | cons first names ih =>
    obtain ⟨hfirst, hn⟩ := List.nodup_cons.1 hn
    rcases ih (ht.refresh first) hn h with hchanged | hdiffers
    · by_cases hold : name ∈ b.changed
      · exact .inl hold
      · obtain ⟨rfl, v, w, hv, hw, hdiffers⟩ := differs_of_refresh hchanged hold
        rw [ht.kept name hold] at hv
        refine .inr ⟨v, w, hv, ?_, hdiffers⟩
        rw [List.foldl_cons, get?_refreshes_of_notMem hfirst, hw]
    · exact .inr hdiffers

end Batch

/-! ## Batches -/

/-- A write of another value is reported, whatever the writes behind it are. -/
theorem mem_changed_of_moves (h : s.apply ws = .ok (s', c)) {name : String} (hm : s.Moves ws name) :
    name ∈ c.changed := by
  obtain ⟨staged, hstaged, heq, -⟩ := apply_eq_ok h
  have hwritten := (Batch.mem_changed_writes ⟨s, []⟩ staged name).2
    (.inr ((moves_iff hstaged).1 hm))
  have hsettled := List.foldlRecOn s.computedOrder Batch.refresh
    (motive := fun b => name ∈ b.changed) hwritten
    fun b hb other _ => Batch.changed_subset_refresh b other hb
  rwa [heq] at hsettled

/-- Without such a write the variable that is reported has another value. -/
theorem Ordered.moves_or_differs (hs : s.Ordered) (h : s.apply ws = .ok (s', c)) {name : String}
    (hname : name ∈ c.changed) : s.Moves ws name ∨ Differs s s' name := by
  obtain ⟨staged, hstaged, heq, -⟩ := apply_eq_ok h
  have htracks := (Batch.Tracks.start s).writes staged
  have hreported : name ∈ (s.computedOrder.foldl Batch.refresh
      (staged.foldl (fun b w => b.write w.1 w.2) ⟨s, []⟩)).changed := by
    rwa [heq]
  have hcases := Batch.differs_of_refreshes htracks hs.nodup hreported
  rw [heq] at hcases
  refine hcases.imp_left fun hwritten => (moves_iff hstaged).2 ?_
  exact ((Batch.mem_changed_writes ⟨s, []⟩ staged name).1 hwritten).resolve_left List.not_mem_nil

/-- A variable that is written once keeps the value of its write. -/
theorem Ordered.differs_of_moves (hs : s.Ordered) (h : s.apply ws = .ok (s', c)) {name : String}
    (hm : s.Moves ws name) (honce : (ws.map Write.name).count name ≤ 1) : Differs s s' name := by
  obtain ⟨staged, hstaged, -, -⟩ := apply_eq_ok h
  obtain ⟨v, hv, x, hx, hdiffers⟩ := (moves_iff hstaged).1 hm
  have hlength : (offers staged name).length ≤ 1 := by
    rw [← names_stageAll hstaged] at honce
    simpa [offers, List.count, List.countP_eq_length_filter, List.filter_map, Function.comp_def,
      beq_eq_decide] using honce
  obtain ⟨y, hy⟩ := List.length_eq_one_iff.1 (hlength.antisymm (List.length_pos_of_mem hx))
  obtain rfl : x = y := by simpa [hy] using hx
  have hexpr : v.expr = none :=
    hs.expr_eq_none hv (isReadOnly_of_stageAll hstaged (mem_offers.1 hx) hv)
  have hnow := get?_apply_of_plain h hstaged hv hexpr
  rw [hy] at hnow
  refine ⟨v, _, hv, hnow, ?_⟩
  simp [Value.overwrite, hdiffers]

end Store

namespace LiveStore

open Store (Differs Moves)

variable {l : LiveStore}

/-- Whatever has been asked of a store, a batch that succeeds calls only subscribers of the names
that it reports. It reports each name that is written with another value than the one from before,
and otherwise only names whose values differ afterwards; a name that is written once, or not at all,
is of those. So all that is reported differs if no write of another value is taken back. -/
theorem Blank.reported_of_apply (hl : l.Blank) (history : List Request) {ws : List Write}
    {s' : Store}
    {c : Commit} (h : (l.serve history).kept.store.apply ws = .ok (s', c)) :
    (∀ n ∈ c.notices, n.name ∈ c.changed) ∧
    (∀ name, Moves (l.serve history).kept.store ws name → name ∈ c.changed) ∧
    (∀ name ∈ c.changed, Moves (l.serve history).kept.store ws name ∨
      Differs (l.serve history).kept.store s' name) ∧
    (∀ name ∈ c.changed, (ws.map Write.name).count name ≤ 1 →
      Differs (l.serve history).kept.store s' name) ∧
    ((∀ name ∈ c.changed, Differs (l.serve history).kept.store s' name) ↔
      ∀ name, Moves (l.serve history).kept.store ws name →
        Differs (l.serve history).kept.store s' name) := by
  have hordered := hl.ordered_serve history
  have hmoves : ∀ name, Moves (l.serve history).kept.store ws name → name ∈ c.changed :=
    fun _ => Store.mem_changed_of_moves h
  have hreported : ∀ name ∈ c.changed, Moves (l.serve history).kept.store ws name ∨
      Differs (l.serve history).kept.store s' name :=
    fun _ => hordered.moves_or_differs h
  refine ⟨fun n hn => (Store.mem_subscribers_of_mem_notices h hn).1, hmoves, hreported,
    fun name hname honce => ?_, ?_⟩
  · rcases hreported name hname with hm | hdiffers
    · exact hordered.differs_of_moves h hm honce
    · exact hdiffers
  · constructor
    · intro hall name hm
      exact hall name (hmoves name hm)
    · intro hall name hname
      exact (hreported name hname).elim (hall name) id

/-- Price and quantity change so that their product stays, and the product is not reported. -/
theorem reported_of_apply_pricing : ∃ s' c,
    (serve { kept := ⟨{}, none⟩ } pricing).kept.store.apply
      [.set "price" (.number 10), .set "quantity" (.number 30)] = .ok (s', c) ∧
    c.changed = ["price", "quantity"] ∧
    ∀ name ∈ ["price", "quantity"],
      Differs (serve { kept := ⟨{}, none⟩ } pricing).kept.store s' name := by
  have happly : ((serve { kept := ⟨{}, none⟩ } pricing).kept.store.apply
      [.set "price" (.number 10), .set "quantity" (.number 30)]).toOption.map (·.2.changed) =
        some ["price", "quantity"] := by
    decide +kernel
  obtain ⟨⟨s', c⟩, h, hchanged⟩ := Option.map_eq_some_iff.1 happly
  replace hchanged : c.changed = ["price", "quantity"] := hchanged
  have h := toOption_eq_some.1 h
  obtain ⟨-, -, -, honce, -⟩ := Blank.reported_of_apply ⟨rfl, rfl, rfl⟩ pricing h
  refine ⟨s', c, h, hchanged, fun name hname => honce name (hchanged ▸ hname) ?_⟩
  exact List.nodup_iff_count_le_one.1 (by decide) name

/-- A counter with a subscriber. -/
def counter : List Request :=
  [.declare { name := "n", type := .number, initial := .number 0 }, .subscribe "n"]

/-- A batch that counts up and back again reports the counter and calls its subscriber, and the
counter is where it has been. -/
theorem reported_counter : ∃ s' c,
    (serve { kept := ⟨{}, none⟩ } counter).kept.store.apply
      [.set "n" (.number 1), .set "n" (.number 0)] = .ok (s', c) ∧
    c.changed = ["n"] ∧ c.notices.map (·.subscription) = [0] ∧
    ¬ Differs (serve { kept := ⟨{}, none⟩ } counter).kept.store s' "n" := by
  have happly : ((serve { kept := ⟨{}, none⟩ } counter).kept.store.apply
      [.set "n" (.number 1), .set "n" (.number 0)]).toOption.map (fun r =>
        (r.2.changed, r.2.notices.map (·.subscription),
          (Dict.get? (serve { kept := ⟨{}, none⟩ } counter).kept.store.vars "n").bind fun v =>
            (Dict.get? r.1.vars "n").map fun w => v.value.same w.value)) =
        some (["n"], [0], some true) := by
    decide +kernel
  obtain ⟨⟨s', c⟩, h, hall⟩ := Option.map_eq_some_iff.1 happly
  obtain ⟨hchanged, hall⟩ := Prod.mk.inj hall
  obtain ⟨hcalled, hsame⟩ := Prod.mk.inj hall
  refine ⟨s', c, toOption_eq_some.1 h, hchanged, hcalled, ?_⟩
  rintro ⟨v, w, hv, hw, hdiffers⟩
  rw [hv, Option.bind_some, hw, Option.map_some, hdiffers] at hsame
  cases hsame

end LiveStore

end Archipelago
