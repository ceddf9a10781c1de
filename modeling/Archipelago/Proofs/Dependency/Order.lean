import Archipelago.Dependency
import Archipelago.Proofs.Basics

/-!
# The order of a graph is topological

A visit only appends, and it appends a name behind all that the name reads. The names on the path
are those whose visit is under way: none of them is appended before its own visit ends, which is
why no name is appended twice.
-/

namespace Archipelago.Dependency.Graph

variable {g : Graph}

/-- Each name stands behind all the keys that it reads. -/
def Sorted (g : Graph) (order : List String) : Prop :=
  ∀ before name after, order = before ++ name :: after → ∀ dep ∈ g.reads name, dep ∈ before

theorem sorted_nil (g : Graph) : g.Sorted [] := fun before name after h => by simp at h

/-- A name may follow once all that it reads is there. -/
theorem Sorted.append {order : List String} {name : String} (h : g.Sorted order)
    (hr : ∀ dep ∈ g.reads name, dep ∈ order) : g.Sorted (order ++ [name]) := by
  intro before other after he dep hd
  rcases List.eq_nil_or_concat after with rfl | ⟨after, last, rfl⟩
  · obtain ⟨rfl, he⟩ := List.append_inj' he rfl
    obtain rfl : name = other := by simpa using he
    exact hr dep hd
  · have he' : order ++ [name] = (before ++ other :: after) ++ [last] := by simpa using he
    exact h before other after (List.append_inj' he' rfl).1 dep hd

/-- What a visit does to the order, while the names on the path wait for theirs to end. -/
structure Grows (g : Graph) (path order order' : List String) : Prop where
  keeps : ∀ name ∈ order, name ∈ order'
  sorted : g.Sorted order → g.Sorted order'
  nodup : order.Nodup → order'.Nodup
  waiting : ∀ name ∈ path, name ∈ order' → name ∈ order
  keys : ∀ name ∈ order', name ∈ order ∨ name ∈ Dict.keys g

namespace Grows

theorem refl (path order : List String) : Grows g path order order :=
  ⟨fun _ h => h, id, id, fun _ _ h => h, fun _ h => .inl h⟩

theorem trans {path o o' o'' : List String} (h : Grows g path o o') (h' : Grows g path o' o'') :
    Grows g path o o'' where
  keeps name hn := h'.keeps name (h.keeps name hn)
  sorted := h'.sorted ∘ h.sorted
  nodup := h'.nodup ∘ h.nodup
  waiting name hp hn := h.waiting name hp (h'.waiting name hp hn)
  keys name hn := (h'.keys name hn).elim (h.keys name) .inr

/-- The end of the visit of a name that has waited on top of the path. -/
theorem finish {path o o' : List String} {name : String} (h : Grows g (name :: path) o o')
    (hn : name ∉ o) (hp : name ∉ path) (hk : name ∈ Dict.keys g)
    (hr : ∀ dep ∈ g.reads name, dep ∈ o') : Grows g path o (o' ++ [name]) where
  keeps other ho := List.mem_append_left _ (h.keeps other ho)
  sorted hs := (h.sorted hs).append hr
  nodup hd := by
    have hn' : name ∉ o' := fun hm => hn (h.waiting name (by simp) hm)
    rw [List.nodup_append]
    refine ⟨h.nodup hd, by simp, ?_⟩
    intro a ha b hb
    obtain rfl : b = name := by simpa using hb
    exact fun hab => hn' (hab ▸ ha)
  waiting other ho hm := by
    rcases List.mem_append.1 hm with hm | hm
    · exact h.waiting other (List.mem_cons_of_mem _ ho) hm
    · obtain rfl : other = name := by simpa using hm
      exact absurd ho hp
  keys other ho := by
    rcases List.mem_append.1 ho with ho | ho
    · exact h.keys other ho
    · obtain rfl : other = name := by simpa using ho
      exact .inr hk

end Grows

theorem mem_keys_of_mem_reads {name dep : String} (h : dep ∈ g.reads name) : dep ∈ Dict.keys g := by
  have hc : Dict.contains g dep = true := (List.mem_filter.1 h).2
  obtain ⟨deps, hd⟩ := Option.isSome_iff_exists.1 hc
  exact Dict.mem_keys_of_get? hd

/-- What holds of each visit holds of visits in a row. -/
theorem visitAll_grows {f : String → List String → Except String (List String)} {path : List String}
    (hf : ∀ name o o', name ∈ Dict.keys g → f name o = .ok o' → Grows g path o o' ∧ name ∈ o') :
    ∀ names o o', (∀ name ∈ names, name ∈ Dict.keys g) → visitAll f names o = .ok o' →
      Grows g path o o' ∧ ∀ name ∈ names, name ∈ o' := by
  intro names
  induction names with
  | nil =>
    intro o o' _ h
    obtain rfl : o = o' := by simpa [visitAll] using h
    exact ⟨.refl path o, by simp⟩
  | cons name names ih =>
    intro o o' hk h
    cases hv : f name o with
    | error e => simp [visitAll, hv, bind, Except.bind] at h
    | ok o₁ =>
      have h' : visitAll f names o₁ = .ok o' := by simpa [visitAll, hv, bind, Except.bind] using h
      have hfirst := hf name o o₁ (hk name (by simp)) hv
      have hrest := ih o₁ o' (fun n hn => hk n (List.mem_cons_of_mem _ hn)) h'
      refine ⟨hfirst.1.trans hrest.1, ?_⟩
      intro other ho
      rcases List.mem_cons.1 ho with rfl | ho
      · exact hrest.1.keeps _ hfirst.2
      · exact hrest.2 other ho

/-- A visit that succeeds has its name in the order. -/
theorem visit_grows (room : Nat) : ∀ path name o o', name ∈ Dict.keys g →
    g.visit room path name o = .ok o' → Grows g path o o' ∧ name ∈ o' := by
  induction room with
  | zero =>
    intro path name o o' _ h
    unfold visit at h
    split at h
    · rename_i hn
      obtain rfl : o = o' := by simpa using h
      exact ⟨.refl path o, hn⟩
    · split at h <;> simp at h
  | succ room ih =>
    intro path name o o' hk h
    unfold visit at h
    split at h
    · rename_i hn
      obtain rfl : o = o' := by simpa using h
      exact ⟨.refl path o, hn⟩
    · rename_i hn
      split at h
      · simp at h
      · rename_i hp
        cases hv : visitAll (g.visit room (name :: path)) (g.reads name) o with
        | error e => simp [hv, bind, Except.bind] at h
        | ok o₁ =>
          obtain rfl : o₁ ++ [name] = o' := by simpa [hv, bind, Except.bind] using h
          have hreads := visitAll_grows (ih (name :: path)) (g.reads name) o o₁
            (fun _ hd => mem_keys_of_mem_reads hd) hv
          exact ⟨hreads.1.finish hn hp hk hreads.2, by simp⟩

/-- All that a successful order says: every key is in it once, behind the keys that it reads. -/
structure IsOrder (g : Graph) (order : List String) : Prop where
  sorted : g.Sorted order
  nodup : order.Nodup
  mem_iff : ∀ name, name ∈ order ↔ name ∈ Dict.keys g

theorem isOrder_of_order {order : List String} (h : g.order = .ok order) : g.IsOrder order := by
  have hg := visitAll_grows (visit_grows g.length []) (Dict.keys g) [] order (fun _ hn => hn) h
  exact
    { sorted := hg.1.sorted (sorted_nil g)
      nodup := hg.1.nodup List.nodup_nil
      mem_iff := fun name => ⟨fun hn => by simpa using hg.1.keys name hn, hg.2 name⟩ }

/-! ## Keys that are in order already -/

theorem visitAll_of_mem {f : String → List String → Except String (List String)}
    {order : List String}
    (hf : ∀ name ∈ order, f name order = .ok order) :
    ∀ names : List String, (∀ name ∈ names, name ∈ order) → visitAll f names order = .ok order
  | [], _ => rfl
  | name :: names, h => by
    rw [visitAll, hf name (h name List.mem_cons_self)]
    exact visitAll_of_mem hf names fun other ho => h other (List.mem_cons_of_mem _ ho)

theorem visit_of_mem {room : Nat} {path order : List String} {name : String} (h : name ∈ order) :
    g.visit room path name order = .ok order := by
  unfold visit
  rw [if_pos h]

/-- If each key stands behind the keys that it reads, they stay where they are. -/
theorem order_of_sorted (hn : (Dict.keys g).Nodup) (hs : g.Sorted (Dict.keys g)) :
    g.order = .ok (Dict.keys g) := by
  have hall : ∀ after before, Dict.keys g = before ++ after →
      visitAll (g.visit g.length []) after before = .ok (Dict.keys g) := by
    intro after
    induction after with
    | nil => exact fun before h => by rw [h, List.append_nil, visitAll]
    | cons name after ih =>
      intro before h
      have hnew : name ∉ before := by
        rw [h, List.nodup_append] at hn
        exact fun hm => hn.2.2 name hm name List.mem_cons_self rfl
      have hvisit : g.visit g.length [] name before = .ok (before ++ [name]) := by
        obtain ⟨room, hroom⟩ : ∃ room, g.length = room + 1 := by
          refine Nat.exists_eq_add_one.2 ?_
          rw [show g.length = (Dict.keys g).length from (List.length_map _).symm, h,
            List.length_append, List.length_cons]
          omega
        have hreads : visitAll (g.visit room [name]) (g.reads name) before = .ok before :=
          visitAll_of_mem (fun other ho => visit_of_mem ho) _ (hs before name after h)
        rw [hroom, visit, if_neg hnew, if_neg List.not_mem_nil]
        show (visitAll (g.visit room [name]) (g.reads name) before).bind _ = _
        rw [hreads]
        rfl
      rw [visitAll, hvisit]
      exact ih (before ++ [name]) (by rw [h, List.append_assoc, List.singleton_append])
  exact hall _ [] rfl

/-- A key that nothing reads can follow the others. -/
theorem Sorted.snoc {name : String} {deps : List String} (h : g.Sorted (Dict.keys g))
    (hn : name ∉ Dict.keys g) (hself : name ∉ deps)
    (hreads : ∀ e ∈ g, name ∉ e.2) :
    Graph.Sorted (g ++ [(name, deps)]) (Dict.keys (g ++ [(name, deps)])) := by
  have hkeys : Dict.keys (g ++ [(name, deps)]) = Dict.keys g ++ [name] := List.map_append
  intro before other after he dep hdep
  have hmem := mem_keys_of_mem_reads hdep
  have hget := (List.mem_filter.1 hdep).1
  rw [hkeys] at he hmem
  rw [Dict.get?_append] at hget
  have hback : dep ≠ name → dep ∈ Dict.keys g := fun hne =>
    (List.mem_append.1 hmem).resolve_right fun hm => hne (List.mem_singleton.1 hm)
  rcases List.eq_nil_or_concat after with rfl | ⟨after, last, rfl⟩
  · obtain ⟨rfl, hother⟩ := List.append_inj' he rfl
    obtain rfl : name = other := by simpa using hother
    rw [Dict.get?_eq_none_iff.2 hn] at hget
    refine hback ?_
    rintro rfl
    exact hself (by simpa [Dict.get?] using hget)
  · have he' : Dict.keys g ++ [name] = (before ++ other :: after) ++ [last] := by simpa using he
    have hold := (List.append_inj' he' rfl).1
    obtain ⟨ds, hds⟩ := Dict.mem_keys_iff.1 (hold ▸ by simp : other ∈ Dict.keys g)
    rw [hds] at hget
    have hmemdep : dep ∈ ds := hget
    have hne : dep ≠ name := by
      rintro rfl
      exact hreads _ (Dict.mem_of_get? hds) hmemdep
    refine h before other after hold dep (List.mem_filter.2 ⟨?_, Dict.contains_iff.2 (hback hne)⟩)
    rw [hds]
    exact hmemdep

theorem reaches_of_foreign {goal : String} {seen waiting : List String}
    (h : ∀ name ∈ waiting, name ≠ goal ∧ name ∉ Dict.keys g) :
    g.reaches goal seen waiting = false := by
  induction waiting with
  | nil => rw [reaches]
  | cons name waiting ih =>
    obtain ⟨⟨hne, hkey⟩, hrest⟩ := List.forall_mem_cons.1 h
    rw [reaches, if_neg hne]
    split
    · exact ih hrest
    · rw [Dict.get?_eq_none_iff.2 hkey]
      exact ih hrest

/-- Where no key is read, none is on a cycle. -/
theorem cyclic_of_foreign (h : ∀ e ∈ g, ∀ dep ∈ e.2, dep ∉ Dict.keys g) : g.cyclic = [] := by
  refine List.filter_eq_nil_iff.2 fun name hname => ?_
  obtain ⟨deps, hdeps⟩ := Dict.mem_keys_iff.1 hname
  rw [hdeps, Option.getD_some, reaches_of_foreign fun dep hdep => ?_]
  · exact Bool.false_ne_true
  · have hforeign := h _ (Dict.mem_of_get? hdeps) dep hdep
    exact ⟨fun he => hforeign (he ▸ hname), hforeign⟩

/-- A name that reads itself is on a cycle. -/
theorem cyclic_self (name : String) : cyclic [(name, [name])] = [name] := by
  simp [cyclic, reaches, Dict.keys, Dict.get?]

end Archipelago.Dependency.Graph
