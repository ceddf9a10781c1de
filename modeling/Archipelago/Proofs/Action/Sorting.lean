import Archipelago.Action.Writes
import Archipelago.Proofs.Value.Order

/-!
# Sorting by keys

A sort inserts its items one by one, each behind those that it does not go before. Values that
cannot be compared make it fail only where it compares them. Whatever it does without failing, the
keys that come to stand side by side can be compared; and where all keys can be compared and are in
an order, the sort is a stable one.
-/

namespace Archipelago

namespace Value

/-- Compares as equal. -/
def ties (a b : Value) : Bool :=
  match a.order b with
  | .ok .eq => true
  | _ => false

theorem ties_iff {a b : Value} : a.ties b = true ↔ a.AtMost b ∧ b.AtMost a := by
  unfold ties
  constructor
  · intro h
    split at h
    · rename_i ho
      exact ⟨⟨_, ho, nofun⟩, ⟨_, order_swap ho, nofun⟩⟩
    · cases h
  · rintro ⟨⟨o, ho, hgt⟩, ⟨o', ho', hgt'⟩⟩
    obtain rfl := Except.ok.inj ((order_swap ho).symm.trans ho')
    rw [ho]
    cases o with
    | eq => rfl
    | lt => exact absurd rfl hgt'
    | gt => exact absurd rfl hgt

/-- Values that can all be compared with each other and are in an order. -/
structure Preordered (values : List Value) : Prop where
  comparable : values.Pairwise Comparable
  trans : ∀ a ∈ values, ∀ b ∈ values, ∀ c ∈ values, a.AtMost b → b.AtMost c → a.AtMost c

/-- What is equal to one of them is equal to each other. -/
theorem Preordered.ties {values : List Value} (h : Preordered values) {a b c : Value}
    (ha : a ∈ values) (hb : b ∈ values) (hc : c ∈ values) (hac : a.ties c = true)
    (hbc : b.ties c = true) : a.ties b = true := by
  obtain ⟨hac, hca⟩ := ties_iff.1 hac
  obtain ⟨hbc, hcb⟩ := ties_iff.1 hbc
  exact ties_iff.2 ⟨h.trans a ha c hc b hb hac hcb, h.trans b hb c hc a ha hbc hca⟩

/-- Numbers and texts of numbers are in an order. -/
theorem Preordered.of_numbers {values : List Value}
    (h : ∀ a ∈ values, ∃ x, a.toNumber? = some x ∧ x ≠ Float.nan) : Preordered values where
  comparable := List.pairwise_of_forall_mem_list fun a ha b hb => by
    obtain ⟨x, hx, -⟩ := h a ha
    obtain ⟨y, hy, -⟩ := h b hb
    exact comparable_iff.2 (.inl ⟨x, y, hx, hy⟩)
  trans a ha b hb c hc hab hbc := by
    obtain ⟨x, hx, -⟩ := h a ha
    obtain ⟨y, hy, hnan⟩ := h b hb
    obtain ⟨z, hz, -⟩ := h c hc
    rw [atMost_of_toNumber? hx hy] at hab
    rw [atMost_of_toNumber? hy hz] at hbc
    rw [atMost_of_toNumber? hx hz]
    exact not_lt_trans hnan hab hbc

/-- Numbers, texts of numbers and other texts are all among the values. A text of a number can be
compared with all of them, but a number with no other text. -/
structure Bridged (values : List Value) : Prop where
  number : ∃ x, .number x ∈ values
  numeral : ∃ s x, .string s ∈ values ∧ parseNumber s = some x
  word : ∃ s, .string s ∈ values ∧ parseNumber s = none

theorem Bridged.mono {values more : List Value} (h : Bridged values) (hsub : values ⊆ more) :
    Bridged more where
  number := h.number.imp fun _ hx => hsub hx
  numeral := h.numeral.imp fun _ hs => hs.imp fun _ hx => ⟨hsub hx.1, hx.2⟩
  word := h.word.imp fun _ hs => ⟨hsub hs.1, hs.2⟩

/-- A text of a number is a bridge between a number and a text that cannot be compared. -/
theorem comparable_or_bridged {a : Value} {s t : String} {x y : Float} {values : List Value}
    (ha : a ∈ values) (hs : string s ∈ values) (ht : string t ∈ values) (hx : a.toNumber? = some x)
    (hy : parseNumber t = some y) : a.Comparable (string s) ∨ Bridged values := by
  cases hz : parseNumber s with
  | some z => exact .inl (comparable_iff.2 (.inl ⟨x, z, hx, hz⟩))
  | none =>
    cases a with
    | number x => exact .inr ⟨⟨x, ha⟩, ⟨t, y, ht, hy⟩, ⟨s, hs, hz⟩⟩
    | string r => exact .inl (comparable_iff.2 (.inr ⟨r, s, rfl, rfl⟩))
    | _ => cases hx

/-- What can be compared with one value can be compared with each other, unless it is a bridge. -/
theorem Comparable.trans_or_bridged {a b c : Value} {values : List Value} (ha : a ∈ values)
    (hb : b ∈ values) (hc : c ∈ values) (hac : a.Comparable c) (hcb : c.Comparable b) :
    a.Comparable b ∨ Bridged values := by
  obtain ⟨x, y, hx, hy⟩ | ⟨r, t, rfl, rfl⟩ := comparable_iff.1 hac
  · obtain ⟨-, z, -, hz⟩ | ⟨t, s, rfl, rfl⟩ := comparable_iff.1 hcb
    · exact .inl (comparable_iff.2 (.inl ⟨x, z, hx, hz⟩))
    · exact comparable_or_bridged ha hb hc hx hy
  · obtain ⟨y, z, hy, hz⟩ | ⟨-, s, -, rfl⟩ := comparable_iff.1 hcb
    · exact (comparable_or_bridged hb ha hc hz hy).imp_left Comparable.symm
    · exact .inl (comparable_iff.2 (.inr ⟨r, s, rfl, rfl⟩))

/-- Values can all be compared with each other if each can be compared with the next one and none is
a bridge. -/
theorem pairwise_of_isChain {values : List Value} (hchain : values.IsChain Comparable)
    (hbridged : ¬Bridged values) : values.Pairwise Comparable := by
  induction values with
  | nil => exact .nil
  | cons a values ih =>
    have hrest := ih hchain.tail fun h => hbridged (h.mono (List.subset_cons_self a values))
    refine .cons (fun b hb => ?_) hrest
    cases values with
    | nil => cases hb
    | cons c values =>
      have hac : a.Comparable c := (List.isChain_cons_cons.1 hchain).1
      obtain rfl | hb := List.mem_cons.1 hb
      · exact hac
      · have hcb : c.Comparable b := (List.pairwise_cons.1 hrest).1 b hb
        exact (hac.trans_or_bridged (by simp) (by simp [hb]) (by simp) hcb).resolve_right hbridged

end Value

namespace Action

open Value (Comparable AtMost)

variable {order : SortOrder}

/-! ## Which of two goes first -/

/-- The first one may stand in front of the second one. -/
def InOrder : SortOrder → Value → Value → Prop
  | .asc, a, b => a.AtMost b
  | .desc, a, b => b.AtMost a

/-- One goes before another one if it is in front of it and the two are not equal; otherwise the
other one is in front of it, or they cannot be compared. -/
theorem goesBefore_cases (order : SortOrder) (a b : Value) :
    (goesBefore order a b = .ok true ∧ InOrder order a b ∧ a.ties b = false) ∨
    (goesBefore order a b = .ok false ∧ InOrder order b a) ∨
    ∃ e, goesBefore order a b = .error e ∧ e.kind = .typeMismatch ∧ ¬a.Comparable b := by
  unfold goesBefore
  cases h : a.order b with
  | error e =>
    refine .inr (.inr ⟨e, rfl, Value.kind_of_order h, ?_⟩)
    rintro ⟨o, ho⟩
    rw [h] at ho
    cases ho
  | ok o =>
    have hswap := Value.order_swap h
    have hties : a.ties b = (o == .eq) := by
      unfold Value.ties
      rw [h]
      cases o <;> rfl
    cases order <;> cases o
    · exact .inl ⟨rfl, ⟨_, h, nofun⟩, hties⟩
    · exact .inr (.inl ⟨rfl, ⟨_, hswap, nofun⟩⟩)
    · exact .inr (.inl ⟨rfl, ⟨_, hswap, nofun⟩⟩)
    · exact .inr (.inl ⟨rfl, ⟨_, h, nofun⟩⟩)
    · exact .inr (.inl ⟨rfl, ⟨_, h, nofun⟩⟩)
    · exact .inl ⟨rfl, ⟨_, hswap, nofun⟩, hties⟩

theorem inOrder_of_goesBefore {a b : Value} (h : goesBefore order a b = .ok true) :
    InOrder order a b ∧ a.ties b = false := by
  obtain ⟨-, h'⟩ | ⟨hnot, -⟩ | ⟨e, herror, -⟩ := goesBefore_cases order a b
  · exact h'
  · rw [hnot] at h
    cases h
  · rw [herror] at h
    cases h

theorem inOrder_of_not_goesBefore {a b : Value} (h : goesBefore order a b = .ok false) :
    InOrder order b a := by
  obtain ⟨hgoes, -⟩ | ⟨-, h'⟩ | ⟨e, herror, -⟩ := goesBefore_cases order a b
  · rw [hgoes] at h
    cases h
  · exact h'
  · rw [herror] at h
    cases h

theorem comparable_of_inOrder {a b : Value} (h : InOrder order a b) : a.Comparable b := by
  cases order with
  | asc => exact h.imp fun _ h => h.1
  | desc => exact Comparable.symm (h.imp fun _ h => h.1)

theorem InOrder.trans {keys : List Value} (hkeys : Value.Preordered keys) {a b c : Value}
    (ha : a ∈ keys) (hb : b ∈ keys) (hc : c ∈ keys) (hab : InOrder order a b)
    (hbc : InOrder order b c) : InOrder order a c := by
  cases order with
  | asc => exact hkeys.trans a ha b hb c hc hab hbc
  | desc => exact hkeys.trans c hc b hb a ha hbc hab

/-! ## One insertion -/

variable {x : Value × Value} {ys zs items : List (Value × Value)}

/-- Where an item has been inserted into a list that runs backwards: it goes before those in front
of it there, and not before the first one behind it. -/
theorem exists_of_insertSorted (h : insertSorted order x ys = .ok zs) : ∃ before after,
    ys = before ++ after ∧ zs = before ++ x :: after ∧
    (∀ y ∈ before, InOrder order x.1 y.1 ∧ x.1.ties y.1 = false) ∧
    ∀ y ∈ after.head?, InOrder order y.1 x.1 := by
  induction ys generalizing zs with
  | nil =>
    obtain rfl := Except.ok.inj h
    exact ⟨[], [], rfl, rfl, nofun, nofun⟩
  | cons y ys ih =>
    obtain ⟨first, hfirst, h⟩ := bind_eq_ok.1 h
    cases first with
    | true =>
      obtain ⟨rest, hrest, h⟩ := bind_eq_ok.1 h
      obtain rfl := Except.ok.inj h
      obtain ⟨before, after, rfl, rfl, hbefore, hafter⟩ := ih hrest
      refine ⟨y :: before, after, rfl, rfl, List.forall_mem_cons.2 ⟨?_, hbefore⟩, hafter⟩
      exact inOrder_of_goesBefore hfirst
    | false =>
      obtain rfl := Except.ok.inj h
      refine ⟨[], y :: ys, rfl, rfl, nofun, fun z hz => ?_⟩
      obtain rfl := Option.some.inj hz
      exact inOrder_of_not_goesBefore hfirst

theorem perm_of_insertSorted (h : insertSorted order x ys = .ok zs) {done : List (Value × Value)}
    (hdone : ys.Perm done) : zs.Perm (done ++ [x]) := by
  obtain ⟨before, after, rfl, rfl, -, -⟩ := exists_of_insertSorted h
  have hfront : (before ++ x :: after).Perm (x :: (before ++ after)) := List.perm_middle
  exact hfront.trans ((hdone.cons x).trans (List.perm_append_singleton x done).symm)

theorem exists_of_insertSorted_error {e : EvalError} (h : insertSorted order x ys = .error e) :
    e.kind = .typeMismatch ∧ ∃ y ∈ ys, ¬x.1.Comparable y.1 := by
  induction ys with
  | nil => cases h
  | cons y ys ih =>
    rw [insertSorted] at h
    obtain ⟨hgoes, -⟩ | ⟨hgoes, -⟩ | ⟨e', hgoes, hkind, hnot⟩ := goesBefore_cases order x.1 y.1
    · rw [hgoes] at h
      cases hrest : insertSorted order x ys with
      | ok rest => rw [hrest] at h; cases h
      | error e' =>
        rw [hrest] at h
        obtain rfl := Except.error.inj h
        exact (ih hrest).imp_right fun ⟨z, hz, hnot⟩ => ⟨z, List.mem_cons_of_mem y hz, hnot⟩
    · rw [hgoes] at h
      cases h
    · rw [hgoes] at h
      obtain rfl := Except.error.inj h
      exact ⟨hkind, y, List.mem_cons_self, hnot⟩

/-! ## The whole sort -/

/-- What each insertion keeps is kept by all of them, up to one that fails. -/
theorem insertAllSorted_cases (order : SortOrder)
    {P : List (Value × Value) → List (Value × Value) → Prop}
    (hstep : ∀ done x ys zs, done ++ [x] <+: items → P done ys → insertSorted order x ys = .ok zs →
      P (done ++ [x]) zs) {done rest : List (Value × Value)} (hitems : done ++ rest = items)
    (h : P done ys) : (∃ zs, insertAllSorted order ys rest = .ok zs ∧ P items zs) ∨
      ∃ e done x zs, insertAllSorted order ys rest = .error e ∧ done ++ [x] <+: items ∧ P done zs ∧
        insertSorted order x zs = .error e := by
  induction rest generalizing done ys with
  | nil =>
    rw [List.append_nil] at hitems
    exact .inl ⟨ys, rfl, hitems ▸ h⟩
  | cons x rest ih =>
    rw [List.append_cons] at hitems
    have hbegins : done ++ [x] <+: items := ⟨rest, hitems⟩
    rw [insertAllSorted]
    cases hinsert : insertSorted order x ys with
    | error e => exact .inr ⟨e, done, x, ys, rfl, hbegins, h, hinsert⟩
    | ok zs => exact ih hitems (hstep done x ys zs hbegins h hinsert)

/-- Of the items so far the sorted ones, which run backwards: each can be compared with the next. -/
structure Chained (done sorted : List (Value × Value)) : Prop where
  perm : sorted.Perm done
  chain : sorted.IsChain fun p q => p.1.Comparable q.1

theorem Chained.insert {done : List (Value × Value)} (h : Chained done ys)
    (hinsert : insertSorted order x ys = .ok zs) : Chained (done ++ [x]) zs := by
  refine ⟨perm_of_insertSorted hinsert h.perm, ?_⟩
  obtain ⟨before, after, rfl, rfl, hbefore, hafter⟩ := exists_of_insertSorted hinsert
  obtain ⟨hleft, hright, -⟩ := List.isChain_append.1 h.chain
  refine List.isChain_append.2 ⟨hleft, List.isChain_cons.2 ⟨fun y hy => ?_, hright⟩, ?_⟩
  · exact (comparable_of_inOrder (hafter y hy)).symm
  · intro y hy z hz
    obtain rfl := Option.some.inj hz
    exact (comparable_of_inOrder (hbefore y (List.mem_of_getLast? hy)).1).symm

/-- A sort either leaves its items so that the keys of neighbours can be compared, or it has met two
keys that cannot be compared. -/
theorem sortByKey_cases (order : SortOrder) (items : List (Value × Value)) :
    (∃ sorted : List (Value × Value), sortByKey order items = .ok (sorted.map (·.2)) ∧
      sorted.Perm items ∧ (sorted.map (·.1)).IsChain Comparable) ∨
    ∃ e, sortByKey order items = .error e ∧ e.kind = .typeMismatch ∧
      ¬(items.map (·.1)).Pairwise Comparable := by
  have hstart : Chained [] [] := ⟨.nil, .nil⟩
  obtain ⟨zs, hsort, h⟩ | ⟨e, done, x, zs, hsort, hbegins, h, hinsert⟩ :=
    insertAllSorted_cases order (fun _ _ _ _ _ => Chained.insert) (List.nil_append items) hstart
  · refine .inl ⟨zs.reverse, ?_, (List.reverse_perm zs).trans h.perm, ?_⟩
    · rw [sortByKey, hsort]
      rfl
    · rw [List.isChain_map, List.isChain_reverse]
      exact h.chain.imp fun _ _ => Comparable.symm
  · obtain ⟨hkind, y, hy, hnot⟩ := exists_of_insertSorted_error hinsert
    refine .inr ⟨e, ?_, hkind, fun hall => hnot ?_⟩
    · rw [sortByKey, hsort]
      rfl
    · have hsorted := (List.pairwise_map.1 hall).sublist hbegins.sublist
      exact ((List.pairwise_append.1 hsorted).2.2 y (h.perm.subset hy) x (by simp)).symm

/-- The items in the order of their keys, those with equal keys as they were. -/
structure StablySorted (order : SortOrder) (items sorted : List (Value × Value)) : Prop where
  perm : sorted.Perm items
  inOrder : sorted.Pairwise fun p q => InOrder order p.1 q.1
  stable : ∀ key ∈ items.map (·.1), sorted.filter (·.1.ties key) = items.filter (·.1.ties key)

/-- Of the items so far the sorted ones, which run backwards, and keep their order where their keys
are equal. -/
structure Arranged (order : SortOrder) (keys : List Value) (done sorted : List (Value × Value)) :
    Prop where
  perm : sorted.Perm done
  inOrder : sorted.Pairwise fun p q => InOrder order q.1 p.1
  stable : ∀ key ∈ keys, sorted.filter (·.1.ties key) = done.reverse.filter (·.1.ties key)

/-- A position that is put into an arrangement behind all that are not after it leaves it an
arrangement: it stands behind the first of them, which stands behind the others, and what it goes
before is not equal to it. -/
theorem Arranged.insert {keys : List Value} (hkeys : Value.Preordered keys)
    {done : List (Value × Value)} (hdone : ∀ p ∈ done ++ [x], p.1 ∈ keys)
    (h : Arranged order keys done ys) (hinsert : insertSorted order x ys = .ok zs) :
    Arranged order keys (done ++ [x]) zs := by
  have hperm := perm_of_insertSorted hinsert h.perm
  obtain ⟨before, after, rfl, rfl, hbefore, hafter⟩ := exists_of_insertSorted hinsert
  have hx : x.1 ∈ keys := hdone x (by simp)
  have hmem : ∀ p ∈ before ++ after, p.1 ∈ keys := fun p hp =>
    hdone p (List.mem_append_left _ (h.perm.subset hp))
  obtain ⟨hleft, hright, hacross⟩ := List.pairwise_append.1 h.inOrder
  refine ⟨hperm, ?_, fun key hkey => ?_⟩
  · refine List.pairwise_append.2 ⟨hleft, .cons (fun z hz => ?_) hright, fun y hy z hz => ?_⟩
    · cases after with
      | nil => cases hz
      | cons y after =>
        have hyx := hafter y rfl
        obtain rfl | hz := List.mem_cons.1 hz
        · exact hyx
        · have hzy := (List.pairwise_cons.1 hright).1 z hz
          exact hzy.trans hkeys (hmem z (by simp [hz])) (hmem y (by simp)) hx hyx
    · obtain rfl | hz := List.mem_cons.1 hz
      · exact (hbefore y hy).1
      · exact hacross y hy z hz
  · have hold := h.stable key hkey
    rw [List.filter_append] at hold
    rw [List.reverse_append, List.reverse_singleton, List.singleton_append, List.filter_append]
    by_cases htie : x.1.ties key = true
    · have hnone : before.filter (·.1.ties key) = [] := by
        rw [List.filter_eq_nil_iff]
        intro y hy hy'
        have hxy := hkeys.ties hx (hmem y (by simp [hy])) hkey htie hy'
        rw [(hbefore y hy).2] at hxy
        cases hxy
      rw [hnone, List.nil_append] at hold ⊢
      simp only [List.filter_cons, htie, if_true, hold]
    · simp only [List.filter_cons, htie, Bool.false_eq_true, if_false, hold]

/-- A sort whose keys are in an order succeeds, and is a stable one. -/
theorem exists_stablySorted (order : SortOrder) (hkeys : Value.Preordered (items.map (·.1))) :
    ∃ sorted, sortByKey order items = .ok (sorted.map (·.2)) ∧ StablySorted order items sorted := by
  have hstart : Arranged order (items.map (·.1)) [] [] := ⟨.nil, .nil, fun _ _ => rfl⟩
  obtain ⟨zs, hsort, h⟩ | ⟨e, done, x, zs, hsort, -⟩ :=
    insertAllSorted_cases order (fun done x _ _ hbegins h => h.insert hkeys fun p hp =>
      List.mem_map_of_mem (hbegins.subset hp)) (List.nil_append items) hstart
  · refine ⟨zs.reverse, ?_, (List.reverse_perm zs).trans h.perm, List.pairwise_reverse.2 h.inOrder,
      fun key hkey => ?_⟩
    · rw [sortByKey, hsort]
      rfl
    · rw [List.filter_reverse, h.stable key hkey, List.filter_reverse, List.reverse_reverse]
  · obtain ⟨sorted, hok, -⟩ | ⟨-, -, -, hnot⟩ := sortByKey_cases order items
    · rw [sortByKey, hsort] at hok
      cases hok
    · exact absurd hkeys.comparable hnot

end Action

end Archipelago
