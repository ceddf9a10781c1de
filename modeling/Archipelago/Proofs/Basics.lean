import Archipelago.Dict
import Mathlib.Data.List.Forall2
import Mathlib.Data.List.Nodup

/-!
# Steps that can fail, maps and lists

What the proofs need of `Except`, of `Dict` and of lists, and what none of them states itself.
-/

namespace Archipelago

universe u v w

/-! ## Steps that can fail -/

section Except

variable {ε : Type u} {α : Type v} {β : Type v}

/-- A composed step succeeds if both of its parts do. -/
theorem bind_eq_ok {x : Except ε α} {f : α → Except ε β} {b : β} :
    (x >>= f) = .ok b ↔ ∃ a, x = .ok a ∧ f a = .ok b := by
  cases x with
  | error e => simp [bind, Except.bind]
  | ok a => simp [bind, Except.bind]

theorem toOption_eq_some {x : Except ε α} {a : α} : x.toOption = some a ↔ x = .ok a := by
  cases x with
  | error e => simp [Except.toOption]
  | ok b => simp [Except.toOption]

theorem map_eq_ok {x : Except ε α} {f : α → β} {b : β} :
    x.map f = .ok b ↔ ∃ a, x = .ok a ∧ f a = b := by
  cases x with
  | error e => simp [Except.map]
  | ok a => simp [Except.map]

theorem mapError_eq_ok {ε' : Type w} {x : Except ε α} {f : ε → ε'} {a : α} :
    x.mapError f = .ok a ↔ x = .ok a := by
  cases x with
  | error e => simp [Except.mapError]
  | ok b => simp [Except.mapError]

end Except

/-! ## Maps -/

namespace Dict

variable {α : Type u} {β : Type v}

theorem get?_mapValues (f : α → β) (d : Dict α) (name : String) :
    get? (mapValues f d) name = (get? d name).map f := by
  induction d with
  | nil => rfl
  | cons e d ih =>
    obtain ⟨k, x⟩ := e
    by_cases h : k = name
    · simp [mapValues, get?, h]
    · simpa [mapValues, get?, h] using ih

@[simp] theorem keys_mapValues (f : α → β) (d : Dict α) : keys (mapValues f d) = keys d := by
  simp [keys, mapValues]

theorem mapValues_insert (f : α → β) (d : Dict α) (name : String) (x : α) :
    mapValues f (insert d name x) = insert (mapValues f d) name (f x) := by
  induction d with
  | nil => rfl
  | cons e d ih =>
    obtain ⟨k, y⟩ := e
    by_cases h : k = name
    · simp [mapValues, insert, h]
    · simpa [mapValues, insert, h] using ih

/-- To insert what is there already changes nothing. -/
theorem insert_of_get? {d : Dict α} {name : String} {x : α} (h : get? d name = some x) :
    insert d name x = d := by
  induction d with
  | nil => simp at h
  | cons e d ih =>
    obtain ⟨k, y⟩ := e
    by_cases hk : k = name
    · obtain rfl : y = x := by simpa [get?, hk] using h
      simp [insert, hk]
    · have : get? d name = some x := by simpa [get?, hk] using h
      simp [insert, hk, ih this]

/-- A new name goes to the end. -/
theorem insert_of_notMem {d : Dict α} {name : String} (h : name ∉ keys d) (x : α) :
    insert d name x = d ++ [(name, x)] := by
  induction d with
  | nil => rfl
  | cons e d ih =>
    obtain ⟨k, y⟩ := e
    have hk : k ≠ name := fun he => h (by simp [keys, he])
    have hd : name ∉ keys d := fun hm => h (by simpa [keys] using Or.inr hm)
    simp [insert, hk, ih hd]

theorem get?_eq_none_iff {d : Dict α} {name : String} : get? d name = none ↔ name ∉ keys d := by
  induction d with
  | nil => simp [keys]
  | cons e d ih =>
    obtain ⟨k, y⟩ := e
    by_cases hk : k = name
    · simp [get?, keys, hk]
    · have hne : name ≠ k := Ne.symm hk
      simpa [get?, keys, hk, hne] using ih

theorem mem_keys_iff {d : Dict α} {name : String} : name ∈ keys d ↔ ∃ x, get? d name = some x := by
  rw [← not_iff_not, ← get?_eq_none_iff]
  simp [Option.eq_none_iff_forall_ne_some]

theorem contains_iff {d : Dict α} {name : String} : contains d name = true ↔ name ∈ keys d := by
  rw [mem_keys_iff, contains, Option.isSome_iff_exists]

theorem get?_append (d d' : Dict α) (name : String) :
    get? (d ++ d') name = (get? d name).or (get? d' name) := by
  induction d with
  | nil => simp
  | cons e d ih =>
    obtain ⟨k, y⟩ := e
    by_cases hk : k = name
    · simp [get?, hk]
    · simpa [get?, hk] using ih

/-- Of a repeated name the last entry counts. -/
theorem get?_merge (d : Dict α) (entries : List (String × α)) (name : String) :
    get? (merge d entries) name =
      ((entries.filter (·.1 = name)).map (·.2)).getLast?.or (get? d name) := by
  induction entries generalizing d with
  | nil => rfl
  | cons e entries ih =>
    show get? (merge (insert d e.1 e.2) entries) name = _
    rw [ih, get?_insert]
    by_cases he : e.1 = name
    · rw [if_pos he, List.filter_cons_of_pos (by simpa using he), List.map_cons, List.getLast?_cons]
      cases ((entries.filter (·.1 = name)).map (·.2)).getLast? with
      | none => rfl
      | some x => rfl
    · rw [if_neg he, List.filter_cons_of_neg (by simpa using he)]

/-- Of two maps that are merged the second counts first. -/
theorem get?_merge_of_nodup {e : Dict α} (h : (keys e).Nodup) (d : Dict α) (name : String) :
    get? (merge d e) name = (get? e name).or (get? d name) := by
  induction e generalizing d with
  | nil => rfl
  | cons x e ih =>
    obtain ⟨key, value⟩ := x
    obtain ⟨hkey, he⟩ : key ∉ keys e ∧ (keys e).Nodup := List.nodup_cons.1 h
    change get? (merge (insert d key value) e) name = _
    rw [ih he, get?_insert]
    by_cases hname : key = name
    · subst hname
      simp [get?, get?_eq_none_iff.2 hkey]
    · simp [get?, hname]

theorem get?_eq_find? (d : Dict α) (name : String) :
    get? d name = (d.find? (·.1 = name)).map (·.2) := by
  induction d with
  | nil => rfl
  | cons x d ih =>
    obtain ⟨key, value⟩ := x
    by_cases hname : key = name
    · simp [get?, hname]
    · simp [get?, hname, ih]

/-- In a map without repetition a name has the value that it is listed with. -/
theorem get?_of_mem {d : Dict α} {name : String} {x : α} (hd : (keys d).Nodup)
    (h : (name, x) ∈ d) : get? d name = some x := by
  induction d with
  | nil => simp at h
  | cons e d ih =>
    obtain ⟨k, y⟩ := e
    rw [keys, List.map_cons, List.nodup_cons] at hd
    rcases List.mem_cons.1 h with he | hm
    · obtain ⟨rfl, rfl⟩ := Prod.mk.inj he
      simp [get?]
    · have hk : k ≠ name := fun he => hd.1 (List.mem_map.2 ⟨(name, x), hm, he.symm⟩)
      simpa [get?, hk] using ih hd.2 hm

theorem mem_insert {d : Dict α} {name : String} {x : α} {e : String × α}
    (h : e ∈ insert d name x) : e = (name, x) ∨ e ∈ d := by
  induction d with
  | nil => exact .inl (List.mem_singleton.1 h)
  | cons e' d ih =>
    obtain ⟨k, v⟩ := e'
    unfold insert at h
    split at h
    · rename_i hk
      exact (List.mem_cons.1 h).imp (fun he => hk ▸ he) (List.mem_cons_of_mem _)
    · rcases List.mem_cons.1 h with rfl | h
      · exact .inr List.mem_cons_self
      · exact (ih h).imp id (List.mem_cons_of_mem _)

theorem mem_of_get? {d : Dict α} {name : String} {x : α} (h : get? d name = some x) :
    (name, x) ∈ d := by
  induction d with
  | nil => simp at h
  | cons e d ih =>
    obtain ⟨k, y⟩ := e
    by_cases hk : k = name
    · obtain rfl : y = x := by simpa [get?, hk] using h
      simp [hk]
    · exact List.mem_cons_of_mem _ (ih (by simpa [get?, hk] using h))

theorem nodup_keys_insert {d : Dict α} {name : String} {x : α} (h : (keys d).Nodup) :
    (keys (insert d name x)).Nodup := by
  by_cases hm : name ∈ keys d
  · rwa [keys_insert_of_mem hm]
  · rw [insert_of_notMem hm]
    simpa [keys, List.nodup_append] using ⟨h, fun a y hy he => hm (List.mem_map.2 ⟨_, hy, he⟩)⟩

end Dict

/-! ## Lists side by side -/

theorem exists_of_forall₂ {α : Type u} {β : Type v} {R : α → β → Prop} {as : List α} {bs : List β}
    (h : List.Forall₂ R as bs) : ∀ a ∈ as, ∃ b ∈ bs, R a b := by
  induction h with
  | nil => exact List.forall_mem_nil _
  | cons hab _ ih =>
    refine List.forall_mem_cons.2 ⟨⟨_, List.mem_cons_self, hab⟩, fun a ha => ?_⟩
    obtain ⟨b, hb, hR⟩ := ih a ha
    exact ⟨b, List.mem_cons_of_mem _ hb, hR⟩

/-! ## Names without repetition -/

theorem nodup_addNew {names : List String} (h : names.Nodup) (name : String) :
    (addNew names name).Nodup := by
  unfold addNew
  split
  · exact h
  · rename_i hn
    exact h.append (List.nodup_singleton _) (by simpa using hn)

theorem nodup_addAllNew {names : List String} (h : names.Nodup) (more : List String) :
    (addAllNew names more).Nodup :=
  List.foldlRecOn more addNew (motive := List.Nodup) h fun _ hb name _ => nodup_addNew hb name

/-- Names that are listed once are added as they are. -/
theorem addAllNew_of_disjoint {names more : List String} (h : (names ++ more).Nodup) :
    addAllNew names more = names ++ more := by
  induction more generalizing names with
  | nil => simp [addAllNew]
  | cons name more ih =>
    have hn : name ∉ names := fun hm => (List.nodup_append.1 h).2.2 name hm name (by simp) rfl
    have hadd : addNew names name = names ++ [name] := if_neg hn
    show addAllNew (addNew names name) more = _
    rw [hadd, ih (by simpa using h), List.append_assoc, List.singleton_append]

theorem addAllNew_addNew (names more : List String) (name : String) :
    addAllNew names (addNew more name) = addNew (addAllNew names more) name := by
  unfold addNew
  split
  · rename_i hmore
    exact (if_pos (mem_addAllNew.2 (.inr hmore))).symm
  · exact List.foldl_append ..

theorem addAllNew_assoc (names more others : List String) :
    addAllNew (addAllNew names more) others = addAllNew names (addAllNew more others) := by
  induction others generalizing more with
  | nil => rfl
  | cons name others ih =>
    show addAllNew (addNew (addAllNew names more) name) others = addAllNew names
      (addAllNew (addNew more name) others)
    rw [← addAllNew_addNew, ih]

end Archipelago
