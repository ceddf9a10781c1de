import Archipelago.Proofs.Store.History

/-!
# Who is told of a batch

A batch that succeeds reports each variable whose value it has replaced, and tells those of its
listeners. Who listens is a matter of the history alone: whoever has been granted a subscription
that has not been removed since. What carries the proof is that the subscriptions of a store are
those of its history, request by request, and that no number is given out twice.
-/

namespace Archipelago

namespace Store

/-- The subscriptions to one variable, oldest first. -/
def subscribers (s : Store) (name : String) : List Nat :=
  (s.subscriptions.filter (·.2 = name)).map (·.1)

/-- Numbers are given out in order, and each of them once. -/
structure Numbered (s : Store) : Prop where
  nodup : (s.subscriptions.map (·.1)).Nodup
  given : ∀ id ∈ s.subscriptions.map (·.1), id < s.nextSubscription

/-- A subscription that there has been and that there is no more. -/
structure Gone (s : Store) (id : Nat) : Prop where
  given : id < s.nextSubscription
  notMem : id ∉ s.subscriptions.map (·.1)

variable {s s' : Store} {ws : List Write} {c : Commit}

/-! ## The names that are reported -/

theorem Batch.changed_setValue_subset {b : Batch} (h : b.changed ⊆ b.store.names) {name : String}
    {v : Variable} (hv : Dict.get? b.store.vars name = some v) (x : Value) :
    addNew b.changed name ⊆ (b.store.setValue name x).names := by
  intro other hother
  rw [names_eq (frame_setValue b.store name x)]
  rcases mem_addNew.1 hother with hother | rfl
  · exact h hother
  · exact Dict.mem_keys_of_get? hv

theorem Batch.changed_write_subset {b : Batch} (h : b.changed ⊆ b.store.names) (name : String)
    (x : Value) : (b.write name x).changed ⊆ (b.write name x).store.names := by
  unfold Batch.write
  split
  · rename_i v hv
    split
    · exact h
    · exact changed_setValue_subset h hv x
  · exact h

theorem Batch.changed_refresh_subset {b : Batch} (h : b.changed ⊆ b.store.names) (name : String) :
    (b.refresh name).changed ⊆ (b.refresh name).store.names := by
  unfold Batch.refresh
  split
  · rename_i v hv
    split
    · split
      · rename_i s' hs
        obtain ⟨_, e, _, _, rfl⟩ := recompute?_eq_some hs
        exact changed_setValue_subset h hv _
      · exact h
    · exact h
  · exact h

/-- No batch reports a name that is not there. -/
theorem exists_of_mem_changed (h : s.apply ws = .ok (s', c)) {name : String}
    (hname : name ∈ c.changed) : ∃ v, Dict.get? s'.vars name = some v := by
  obtain ⟨staged, -, heq, -⟩ := apply_eq_ok h
  have hwritten := List.foldlRecOn staged (fun b w => Batch.write b w.1 w.2)
    (motive := fun b => b.changed ⊆ b.store.names) (b := ⟨s, []⟩) (List.nil_subset _)
    fun b hb w _ => Batch.changed_write_subset hb w.1 w.2
  have hsettled := List.foldlRecOn s.computedOrder Batch.refresh
    (motive := fun b => b.changed ⊆ b.store.names) hwritten
    fun b hb name _ => Batch.changed_refresh_subset hb name
  rw [heq] at hsettled
  exact Dict.mem_keys_iff.1 (hsettled hname)

/-- Whatever a batch replaces it reports. -/
theorem mem_changed_of_get_ne (h : s.apply ws = .ok (s', c)) {name : String}
    (hne : s.get name ≠ s'.get name) : name ∈ c.changed := by
  by_contra hname
  refine hne ?_
  unfold get
  rw [(apply_tracks h).kept name hname]

/-! ## The calls -/

/-- The calls of a batch: the reported names in turn, the subscribers of each in turn. -/
theorem notices_of_apply (h : s.apply ws = .ok (s', c)) :
    c.notices.map (fun n => (n.name, n.subscription)) =
      c.changed.flatMap fun name => (s.subscribers name).map (name, ·) := by
  obtain ⟨-, -, -, hnotices⟩ := apply_eq_ok h
  rw [hnotices, notices, List.map_flatMap]
  refine List.flatMap_congr fun name hname => ?_
  obtain ⟨v, hv⟩ := exists_of_mem_changed h hname
  rw [hv, subscribers, subscriptions_eq (apply_tracks h).frame]
  simp

/-- Each call is made with the value that the variable has in the end. -/
theorem get_of_mem_notices (h : s.apply ws = .ok (s', c)) {n : Notice} (hn : n ∈ c.notices) :
    s'.get n.name = .ok n.value := by
  obtain ⟨-, -, -, hnotices⟩ := apply_eq_ok h
  rw [hnotices] at hn
  obtain ⟨name, -, hn⟩ := List.mem_flatMap.1 hn
  cases hv : Dict.get? s'.vars name with
  | none => rw [hv] at hn; cases hn
  | some v =>
    rw [hv] at hn
    obtain ⟨sub, -, rfl⟩ := List.mem_map.1 hn
    show s'.get name = _
    rw [get, hv]

theorem mem_subscribers {name : String} {id : Nat} :
    id ∈ s.subscribers name ↔ (id, name) ∈ s.subscriptions := by
  simp [subscribers]

/-- No subscription is to two variables. -/
theorem Numbered.name_unique (h : s.Numbered) {id : Nat} {name other : String}
    (hname : id ∈ s.subscribers name) (hother : id ∈ s.subscribers other) : name = other := by
  have hinj := List.inj_on_of_nodup_map h.nodup (mem_subscribers.1 hname)
    (mem_subscribers.1 hother) rfl
  exact congrArg Prod.snd hinj

theorem Numbered.nodup_subscribers (h : s.Numbered) (name : String) : (s.subscribers name).Nodup :=
  h.nodup.sublist (List.filter_sublist.map _)

/-- No subscription is called twice in a batch. -/
theorem Numbered.nodup_notices (hs : s.Numbered) (h : s.apply ws = .ok (s', c)) :
    (c.notices.map (·.subscription)).Nodup := by
  have heq : c.notices.map (·.subscription) = c.changed.flatMap s.subscribers := by
    have hmap := congrArg (List.map Prod.snd) (notices_of_apply h)
    simpa [List.map_flatMap, Function.comp_def] using hmap
  rw [heq, List.nodup_flatMap]
  refine ⟨fun name _ => hs.nodup_subscribers name, (nodup_changed h).imp ?_⟩
  intro name other hne id hname hother
  exact hne (hs.name_unique hname hother)

/-- Only subscribers of reported names are called. -/
theorem mem_subscribers_of_mem_notices (h : s.apply ws = .ok (s', c)) {n : Notice}
    (hn : n ∈ c.notices) : n.name ∈ c.changed ∧ n.subscription ∈ s.subscribers n.name := by
  have hmem : (n.name, n.subscription) ∈ c.notices.map fun n => (n.name, n.subscription) :=
    List.mem_map_of_mem hn
  rw [notices_of_apply h] at hmem
  obtain ⟨name, hname, hmem⟩ := List.mem_flatMap.1 hmem
  obtain ⟨id, hid, heq⟩ := List.mem_map.1 hmem
  obtain ⟨rfl, rfl⟩ := Prod.mk.inj heq
  exact ⟨hname, hid⟩

end Store

namespace LiveStore

namespace Request

/-- The number under which a request is granted a subscription to a variable, if it asks for one. -/
def granted? (l : LiveStore) (name : String) : Request → Option Nat
  | subscribe asked =>
    if asked = name then (l.kept.store.subscribe name).toOption.map (·.2) else none
  | _ => none

/-- Whether it asks for the subscription to be removed. -/
def removes (id : Nat) : Request → Bool
  | unsubscribe other => other = id
  | _ => false

end Request

/-- Who listens to a variable after a history: whoever has been granted a subscription to it that
has not been removed since, in the order of the grants. -/
def listeners (l : LiveStore) (name : String) : List Request → List Nat
  | [] => []
  | r :: later =>
    ((r.granted? l name).filter fun id => !later.any (·.removes id)).toList ++
      (r.perform l).listeners name later

/-! ## What a request does to the subscriptions -/

variable {l : LiveStore}

theorem subscriptions_declare (l : LiveStore) (d : VariableDecl) :
    ((LiveStore.declare d).run l).2.kept.store.subscriptions = l.kept.store.subscriptions ∧
      ((LiveStore.declare d).run l).2.kept.store.nextSubscription =
        l.kept.store.nextSubscription := by
  rw [run_declare]
  cases hd : l.kept.store.declare l.kept.load d with
  | error e => exact ⟨rfl, rfl⟩
  | ok s =>
    obtain ⟨_, _, _, -, -, hframe⟩ := Store.frame_declare hd
    exact ⟨(congrArg Store.subscriptions hframe :), (congrArg Store.nextSubscription hframe :)⟩

theorem subscriptions_deed (l : LiveStore) (d : Deed) :
    (d.perform l).kept.store.subscriptions = l.kept.store.subscriptions ∧
      (d.perform l).kept.store.nextSubscription = l.kept.store.nextSubscription := by
  have hframe := frame_performAll l [d]
  exact ⟨Store.subscriptions_eq hframe, (congrArg Store.nextSubscription hframe :)⟩

namespace Request

theorem granted?_subscribe (l : LiveStore) (asked name : String) :
    (subscribe asked).granted? l name =
      if l.kept.store.contains asked = true ∧ asked = name then some l.kept.store.nextSubscription
      else none := by
  unfold granted? Store.subscribe
  by_cases he : asked = name
  · subst he
    by_cases hc : l.kept.store.contains asked = true
    · simp [hc, Except.toOption]
    · simp [hc, Except.toOption]
  · simp [he]

/-- Some subscriptions are taken away, or one is added under the next number. -/
theorem subscriptions_perform (l : LiveStore) (r : Request) :
    (r.perform l).kept.store.subscriptions =
        l.kept.store.subscriptions.filter (fun e => !r.removes e.1) ∧
      (r.perform l).kept.store.nextSubscription = l.kept.store.nextSubscription ∧
      (∀ name, r.granted? l name = none) ∨
    ∃ asked, (r.perform l).kept.store.subscriptions =
        l.kept.store.subscriptions ++ [(l.kept.store.nextSubscription, asked)] ∧
      (r.perform l).kept.store.nextSubscription = l.kept.store.nextSubscription + 1 ∧
      (∀ id, r.removes id = false) ∧
      ∀ name, r.granted? l name =
        if asked = name then some l.kept.store.nextSubscription else none := by
  have hall (subs : List (Nat × String)) : subs = subs.filter fun _ => !false :=
    (List.filter_eq_self.2 fun _ _ => rfl).symm
  cases r with
  | equip params resident limits scope storage => exact .inl ⟨hall _, rfl, fun _ => rfl⟩
  | declare d =>
    obtain ⟨hsubs, hnext⟩ := l.subscriptions_declare d
    exact .inl ⟨hsubs.trans (hall _), hnext, fun _ => rfl⟩
  | deed d =>
    obtain ⟨hsubs, hnext⟩ := l.subscriptions_deed d
    exact .inl ⟨hsubs.trans (hall _), hnext, fun _ => rfl⟩
  | subscribe asked =>
    rw [perform_subscribe]
    by_cases hc : l.kept.store.contains asked = true
    · rw [if_pos hc]
      refine .inr ⟨asked, rfl, rfl, fun _ => rfl, fun name => ?_⟩
      rw [granted?_subscribe]
      simp only [hc, true_and]
    · rw [if_neg hc]
      refine .inl ⟨hall _, rfl, fun name => ?_⟩
      rw [granted?_subscribe, if_neg fun h => hc h.1]
  | unsubscribe id =>
    refine .inl ⟨List.filter_congr fun e _ => ?_, rfl, fun _ => rfl⟩
    show decide (e.1 ≠ id) = !decide (id = e.1)
    rw [← decide_not, decide_eq_decide]
    exact ne_comm

/-- The subscribers of a variable stay if they are not removed, and a new one comes last. -/
theorem subscribers_perform (l : LiveStore) (r : Request) (name : String) :
    (r.perform l).kept.store.subscribers name =
      (l.kept.store.subscribers name).filter (fun id => !r.removes id) ++
        (r.granted? l name).toList := by
  unfold Store.subscribers
  rcases subscriptions_perform l r with ⟨hsubs, -, hgranted⟩ | ⟨asked, hsubs, -, hremoves, hgranted⟩
  · rw [hsubs, hgranted, List.filter_map, List.filter_filter, List.filter_filter]
    simp [Bool.and_comm]
  · rw [hsubs, hgranted, List.filter_append, List.map_append]
    simp only [hremoves, Bool.not_false, List.filter_true]
    by_cases he : asked = name
    · simp [he]
    · simp [he]

theorem numbered_perform (h : l.kept.store.Numbered) (r : Request) :
    (r.perform l).kept.store.Numbered := by
  rcases subscriptions_perform l r with ⟨hsubs, hnext, -⟩ | ⟨asked, hsubs, hnext, -⟩
  · have hsublist : ((r.perform l).kept.store.subscriptions.map (·.1)).Sublist
        (l.kept.store.subscriptions.map (·.1)) := by
      rw [hsubs]
      exact List.filter_sublist.map _
    exact ⟨h.nodup.sublist hsublist, fun id hid => hnext ▸ h.given id (hsublist.subset hid)⟩
  · constructor
    · rw [hsubs, List.map_append, List.map_singleton, List.nodup_append]
      refine ⟨h.nodup, List.nodup_singleton _, ?_⟩
      rintro id hid _ hnew rfl
      rw [List.mem_singleton.1 hnew] at hid
      exact Nat.lt_irrefl _ (h.given _ hid)
    · intro id hid
      rw [hsubs, List.map_append, List.mem_append] at hid
      rw [hnext]
      rcases hid with hid | hid
      · exact Nat.lt_succ_of_lt (h.given id hid)
      · rw [List.mem_singleton.1 hid]
        exact Nat.lt_succ_self _

/-- What is gone does not come back. -/
theorem gone_perform {id : Nat} (h : l.kept.store.Gone id) (r : Request) :
    (r.perform l).kept.store.Gone id := by
  rcases subscriptions_perform l r with ⟨hsubs, hnext, -⟩ | ⟨asked, hsubs, hnext, -⟩
  · refine ⟨hnext ▸ h.given, fun hmem => h.notMem ?_⟩
    rw [hsubs] at hmem
    exact (List.filter_sublist.map _).subset hmem
  · refine ⟨hnext ▸ Nat.lt_succ_of_lt h.given, fun hmem => ?_⟩
    rw [hsubs, List.map_append, List.mem_append] at hmem
    rcases hmem with hmem | hmem
    · exact h.notMem hmem
    · exact Nat.ne_of_lt h.given (List.mem_singleton.1 hmem)

end Request

/-! ## Histories -/

/-- The subscribers of a variable are those from before that no request has removed, and behind them
the listeners of the history. -/
theorem subscribers_serve (l : LiveStore) (name : String) (history : List Request) :
    (l.serve history).kept.store.subscribers name =
      (l.kept.store.subscribers name).filter (fun id => !history.any (·.removes id)) ++
        l.listeners name history := by
  induction history generalizing l with
  | nil => simp [serve, listeners]
  | cons r later ih =>
    show ((r.perform l).serve later).kept.store.subscribers name = _
    rw [ih, Request.subscribers_perform, List.filter_append, List.filter_filter, listeners,
      List.append_assoc]
    congr 1
    · refine List.filter_congr fun id _ => ?_
      rw [List.any_cons, Bool.not_or, Bool.and_comm]
    · rw [Option.toList_filter]

theorem Blank.subscribers_eq (h : l.Blank) (name : String) (history : List Request) :
    (l.serve history).kept.store.subscribers name = l.listeners name history := by
  rw [subscribers_serve, Store.subscribers, h.subscriptions]
  rfl

theorem Blank.numbered_serve (h : l.Blank) (history : List Request) :
    (l.serve history).kept.store.Numbered := by
  have hstart : l.kept.store.Numbered := by
    constructor
    · simp [h.subscriptions]
    · simp [h.subscriptions]
  exact List.foldlRecOn history Request.perform (motive := fun l => l.kept.store.Numbered) hstart
    fun _ h r _ => Request.numbered_perform h r

/-- A subscription that has been there when it was removed is gone for good. -/
theorem Blank.gone_serve (h : l.Blank) {before later : List Request} {id : Nat}
    (hremoved : ((l.serve before).kept.store.unsubscribe id).2 = true) :
    (l.serve (before ++ .unsubscribe id :: later)).kept.store.Gone id := by
  have hstart : ((Request.unsubscribe id).perform (l.serve before)).kept.store.Gone id := by
    obtain ⟨e, he, heq⟩ := List.any_eq_true.1 hremoved
    obtain rfl : e.1 = id := of_decide_eq_true heq
    refine ⟨(h.numbered_serve before).given _ (List.mem_map_of_mem he), fun hmem => ?_⟩
    obtain ⟨e', he', heq⟩ := List.mem_map.1 hmem
    exact of_decide_eq_true (List.mem_filter.1 he').2 heq
  unfold serve
  rw [List.foldl_append]
  exact List.foldlRecOn later Request.perform (motive := fun l => l.kept.store.Gone id) hstart
    fun _ h r _ => Request.gone_perform h r

/-! ## Batches -/

theorem run_apply_eq_ok {ws : List Write} {changed : List String} {l' : LiveStore}
    (h : (LiveStore.apply ws).run l = (.ok changed, l')) : ∃ s c,
      l.kept.store.apply ws = .ok (s, c) ∧ c.changed = changed ∧
        l' = l.after s c.saves c.notices := by
  rw [run_apply] at h
  cases happly : l.kept.store.apply ws with
  | error e => rw [happly] at h; cases h
  | ok r =>
    rw [happly] at h
    obtain ⟨hchanged, rfl⟩ := Prod.mk.inj h
    exact ⟨r.1, r.2, rfl, Except.ok.inj hchanged, rfl⟩

/-- Whatever has been asked of a store, a batch that succeeds reports each name once, and it reports
each variable that has another value afterwards. It calls the listeners of the reported names, name
by name and each of them once, with the value that the variable has in the end, and it calls no
subscription that has been removed. -/
theorem Blank.told_of_apply (hl : l.Blank) {history : List Request} {ws : List Write}
    {changed : List String} {l' : LiveStore}
    (h : (LiveStore.apply ws).run (l.serve history) = (.ok changed, l')) :
    changed.Nodup ∧
    (∀ name, (l.serve history).kept.store.get name ≠ l'.kept.store.get name → name ∈ changed) ∧
    ∃ calls : List Notice, l'.told = (l.serve history).told ++ calls ∧
      calls.map (fun n => (n.name, n.subscription)) =
        changed.flatMap (fun name => (l.listeners name history).map (name, ·)) ∧
      (calls.map (·.subscription)).Nodup ∧
      (∀ n ∈ calls, l'.kept.store.get n.name = .ok n.value) ∧
      ∀ before id later, history = before ++ .unsubscribe id :: later →
        ((l.serve before).kept.store.unsubscribe id).2 = true →
          ∀ n ∈ calls, n.subscription ≠ id := by
  obtain ⟨s, c, happly, rfl, rfl⟩ := run_apply_eq_ok h
  refine ⟨Store.nodup_changed happly, fun name => Store.mem_changed_of_get_ne happly,
    c.notices, rfl, ?_, (hl.numbered_serve history).nodup_notices happly,
    fun n => Store.get_of_mem_notices happly, ?_⟩
  · rw [Store.notices_of_apply happly]
    simp only [hl.subscribers_eq]
  · rintro before id later rfl hremoved n hn rfl
    have hlistens := (Store.mem_subscribers_of_mem_notices happly hn).2
    exact (hl.gone_serve hremoved).notMem (List.mem_map_of_mem (Store.mem_subscribers.1 hlistens))

/-- A price and a quantity, their product, and subscriptions to them that come and go. -/
def pricing : List Request :=
  [.declare { name := "price", type := .number, initial := .number 100 },
    .declare { name := "quantity", type := .number, initial := .number 2 },
    .declare { name := "total", type := .computed, initial := .undefined
               expression := some "$vars.price * $vars.quantity" },
    .subscribe "total", .subscribe "price", .subscribe "discount", .subscribe "total",
    .unsubscribe 0, .deed (.set "quantity" (.number 3)), .subscribe "price"]

/-- Both factors change in one batch. Of the product one new value is told, to the second of its two
subscribers, since the first has gone. -/
theorem told_of_apply_pricing : ∃ l',
    (LiveStore.apply [.set "price" (.number 10), .set "quantity" (.number 5)]).run
      (serve { kept := ⟨{}, none⟩ } pricing) = (.ok ["price", "quantity", "total"], l') ∧
    (l'.told.map fun n => (n.name, n.subscription, n.value.display)) =
      [("total", 2, "300"), ("price", 1, "10"), ("price", 3, "10"), ("total", 2, "50")] ∧
    ∀ name, (serve { kept := ⟨{}, none⟩ } pricing).kept.store.get name ≠ l'.kept.store.get name →
      name ∈ ["price", "quantity", "total"] := by
  have hchanged : ((LiveStore.apply [.set "price" (.number 10), .set "quantity" (.number 5)]).run
      (serve { kept := ⟨{}, none⟩ } pricing)).1 = .ok ["price", "quantity", "total"] := by
    decide +kernel
  have htold : ((LiveStore.apply [.set "price" (.number 10), .set "quantity" (.number 5)]).run
      (serve { kept := ⟨{}, none⟩ } pricing)).2.told.map
        (fun n => (n.name, n.subscription, n.value.display)) =
      [("total", 2, "300"), ("price", 1, "10"), ("price", 3, "10"), ("total", 2, "50")] := by
    decide +kernel
  generalize hrun : (LiveStore.apply [.set "price" (.number 10), .set "quantity" (.number 5)]).run
    (serve { kept := ⟨{}, none⟩ } pricing) = r at hchanged htold
  obtain ⟨result, l'⟩ := r
  obtain rfl : result = _ := hchanged
  exact ⟨l', rfl, htold, (Blank.told_of_apply ⟨rfl, rfl, rfl⟩ hrun).2.1⟩

end LiveStore

end Archipelago
