import Archipelago.Proofs.Action.Sequence
import Archipelago.Proofs.Store.Overwrites
import Archipelago.Proofs.Value.Numbers
import Archipelago.Value.Order

/-!
# Going round a list of values

A cycle looks for the value of its variable among its values and goes on with the one behind it.
What the variable holds is an entry that has been coerced to its type, and the search goes by a
loose comparison with the entries as they are listed. So the cycle goes round if each value is found
at its own entry, and nowhere in front of it; only the last one may be found nowhere, since both
lead to the first.
-/

namespace Archipelago

/-- The entry for a value is the first one that the value is found at. The last entry may be
missed. -/
def Value.Retraces (values : List Value) (j : Nat) (c : Value) : Prop :=
  (∀ i < j, ∀ x, values[i]? = some x → x.looseEq c = false) ∧
    ((∃ x, values[j]? = some x ∧ x.looseEq c = true) ∨ j + 1 = values.length)

namespace Action

/-! ## The next entry -/

theorem position?_eq (p : Value → Bool) (values : List Value) :
    position? p values = values.findIdx? p := by
  induction values with
  | nil => rfl
  | cons x values ih => rw [position?, List.findIdx?_cons, ih]

/-- The place of the entry that follows a value. -/
def successor (values : List Value) (now : Value) : Nat :=
  match position? (·.looseEq now) values with
  | some i => (i + 1) % values.length
  | none => 0

theorem nextOf_eq (values : List Value) (now : Value) :
    nextOf values now = values[successor values now]? := by
  unfold nextOf successor
  cases position? (·.looseEq now) values with
  | some i => rfl
  | none => exact List.head?_eq_getElem?

theorem mod_succ_inj {i j m : Nat} (hi : i < m) (hj : j < m) (h : (i + 1) % m = (j + 1) % m) :
    i = j :=
  Nat.ModEq.eq_of_lt_of_lt (Nat.ModEq.add_right_cancel' 1 h) hi hj

/-- A value is followed by the entry behind its own just if it is found there. -/
theorem successor_eq_iff {values : List Value} {c : Value} {j : Nat} (hj : j < values.length) :
    successor values c = (j + 1) % values.length ↔ Value.Retraces values j c := by
  unfold successor Value.Retraces
  cases hp : position? (·.looseEq c) values with
  | some i =>
    rw [position?_eq, List.findIdx?_eq_some_iff_getElem] at hp
    obtain ⟨hi, hfound, hfirst⟩ := hp
    dsimp only
    constructor
    · intro h
      obtain rfl := mod_succ_inj hi hj h
      refine ⟨fun k hk x hx => ?_, .inl ⟨_, List.getElem?_eq_getElem hi, hfound⟩⟩
      obtain ⟨hlt, rfl⟩ := List.getElem?_eq_some_iff.1 hx
      exact Bool.eq_false_iff.2 (hfirst k hk)
    · rintro ⟨hbefore, hown⟩
      have hle : j ≤ i := by
        by_contra hlt
        rw [hbefore i (Nat.lt_of_not_le hlt) _ (List.getElem?_eq_getElem hi)] at hfound
        cases hfound
      obtain ⟨x, hx, hown⟩ | hlast := hown
      · have hge : i ≤ j := by
          by_contra hlt
          obtain ⟨_, hxj⟩ := List.getElem?_eq_some_iff.1 hx
          exact hfirst j (Nat.lt_of_not_le hlt) (hxj ▸ hown)
        rw [Nat.le_antisymm hge hle]
      · rw [show i = j by omega]
  | none =>
    rw [position?_eq, List.findIdx?_eq_none_iff] at hp
    dsimp only
    constructor
    · intro h
      refine ⟨fun i _ x hx => hp x (List.mem_of_getElem? hx), .inr ?_⟩
      by_contra hne
      rw [Nat.mod_eq_of_lt (by omega)] at h
      omega
    · rintro ⟨-, ⟨x, hx, hfound⟩ | hlast⟩
      · rw [hp x (List.mem_of_getElem? hx)] at hfound
        cases hfound
      · rw [hlast, Nat.mod_self]

end Action

/-! ## One execution -/

namespace LiveStore

/-- A store in which a variable of this type holds this value. -/
def Holds (l : LiveStore) (var : String) (t : VarType) (c : Value) : Prop :=
  l.kept.store.Ordered ∧
    ∃ v, Dict.get? l.kept.store.vars var = some v ∧ v.decl.type = t ∧ v.value = c

variable {l : LiveStore} {var : String} {t : VarType} {values cs : List Value}

theorem Holds.get {c : Value} (h : l.Holds var t c) : l.kept.store.get var = .ok c := by
  obtain ⟨-, v, hv, -, rfl⟩ := h
  rw [Store.get, hv]

/-- A cycle writes the entry that follows the value of its variable. -/
theorem Holds.cycle {c x c' : Value} (h : l.Holds var t c)
    (hnext : Action.nextOf values c = some x) (hc : t.coerce var x = .ok c')
    (locals : Dict Value) : ∃ changed l',
      (execute locals (.cycle var values)).run l = (.ok changed, l') ∧
        l'.Holds var t (c.overwrite c') := by
  obtain ⟨hordered, v, hv, rfl, rfl⟩ := h
  have hwrites : (Action.cycle var values).writes l.kept.store locals = .ok [.set var x] := by
    simp only [Action.writes, Action.current, Store.get, hv, Except.mapError, bind,
      Except.bind, hnext]
  obtain ⟨changed, l', commit, hrun, happly, hv'⟩ := exists_execute_set hordered hwrites hv hc
  refine ⟨changed, l', hrun, ?_, { v with value := v.value.overwrite c' }, hv', rfl, rfl⟩
  exact hordered.of_frame (Store.apply_tracks happly).frame.symm

end LiveStore

/-! ## Entries of one type -/

namespace Value

theorem exists_number {a : Value} (h : VarType.number.admits a = true) : ∃ n, a = .number n := by
  cases a with
  | number n => exact ⟨n, rfl⟩
  | _ => cases h

theorem exists_string {a : Value} (h : VarType.string.admits a = true) : ∃ s, a = .string s := by
  cases a with
  | string s => exact ⟨s, rfl⟩
  | _ => cases h

theorem exists_bool {a : Value} (h : VarType.boolean.admits a = true) : ∃ b, a = .bool b := by
  cases a with
  | bool b => exact ⟨b, rfl⟩
  | _ => cases h

/-- Numbers, texts and truth values are the same in both directions. -/
theorem same_comm_of_admits {t : VarType} (ht : t = .number ∨ t = .string ∨ t = .boolean)
    {a b : Value} (ha : t.admits a = true) (hb : t.admits b = true) : a.same b = b.same a := by
  obtain rfl | rfl | rfl := ht
  · obtain ⟨x, rfl⟩ := exists_number ha
    obtain ⟨y, rfl⟩ := exists_number hb
    exact beq_float_comm x y
  · obtain ⟨s, rfl⟩ := exists_string ha
    obtain ⟨s', rfl⟩ := exists_string hb
    exact BEq.comm
  · obtain ⟨x, rfl⟩ := exists_bool ha
    obtain ⟨y, rfl⟩ := exists_bool hb
    exact BEq.comm

end Value

namespace Action

/-- Entries of a list that coerce to pairwise different values of a type. -/
structure Entries (t : VarType) (var : String) (values cs : List Value) : Prop where
  scalar : t = .number ∨ t = .string ∨ t = .boolean
  coerced : List.Forall₂ (fun x c => t.coerce var x = .ok c) values cs
  differ : cs.Pairwise fun a b => a ≠ b ∧ a.same b = false

namespace Entries

variable {t : VarType} {var : String} {values cs : List Value} (h : Entries t var values cs)
include h

theorem length_eq : values.length = cs.length := h.coerced.length_eq

theorem exists_coerced {j : Nat} {x : Value} (hx : values[j]? = some x) :
    ∃ c, cs[j]? = some c ∧ t.coerce var x = .ok c := by
  obtain ⟨hj, rfl⟩ := List.getElem?_eq_some_iff.1 hx
  have hj' : j < cs.length := h.length_eq ▸ hj
  exact ⟨cs[j], List.getElem?_eq_getElem hj', h.coerced.get hj hj'⟩

theorem exists_entry {j : Nat} {c : Value} (hc : cs[j]? = some c) :
    ∃ x, values[j]? = some x ∧ t.coerce var x = .ok c := by
  obtain ⟨hj, rfl⟩ := List.getElem?_eq_some_iff.1 hc
  have hj' : j < values.length := h.length_eq ▸ hj
  exact ⟨values[j], List.getElem?_eq_getElem hj', h.coerced.get hj' hj⟩

theorem apart {i j : Nat} {a b : Value} (hi : cs[i]? = some a) (hj : cs[j]? = some b)
    (hne : i ≠ j) :
    a ≠ b ∧ a.same b = false := by
  have hordered : ∀ {i j : Nat} {a b : Value}, cs[i]? = some a → cs[j]? = some b → i < j →
      a ≠ b ∧ a.same b = false := by
    intro i j a b hi hj hlt
    obtain ⟨hilt, rfl⟩ := List.getElem?_eq_some_iff.1 hi
    obtain ⟨hjlt, rfl⟩ := List.getElem?_eq_some_iff.1 hj
    exact List.pairwise_iff_getElem.1 h.differ i j hilt hjlt hlt
  obtain hlt | hgt := Nat.lt_or_gt_of_ne hne
  · exact hordered hi hj hlt
  · obtain ⟨hne', hsame⟩ := hordered hj hi hgt
    obtain ⟨x, -, hx⟩ := h.exists_entry hi
    obtain ⟨y, -, hy⟩ := h.exists_entry hj
    have hcomm := Value.same_comm_of_admits h.scalar (VarType.admits_of_coerce hx)
      (VarType.admits_of_coerce hy)
    exact ⟨hne'.symm, hcomm.trans hsame⟩

theorem eq_of_getElem? {i j : Nat} {c : Value} (hi : cs[i]? = some c) (hj : cs[j]? = some c) :
    i = j := by
  by_contra hne
  exact (h.apart hi hj hne).1 rfl

/-- An entry that is written over another one is there afterwards. -/
theorem overwrite_eq {i j : Nat} {a b : Value} (hi : cs[i]? = some a) (hj : cs[j]? = some b) :
    a.overwrite b = b := by
  rw [Value.overwrite_eq_iff]
  intro hsame
  by_cases hne : i = j
  · subst hne
    exact Option.some.inj (hi.symm.trans hj)
  · rw [(h.apart hi hj hne).2] at hsame
    cases hsame

theorem lt_length {j : Nat} {c : Value} (hc : cs[j]? = some c) : j < values.length :=
  h.length_eq ▸ (List.getElem?_eq_some_iff.1 hc).1

theorem successor_lt {j : Nat} {c : Value} (hc : cs[j]? = some c) :
    successor values c < values.length := by
  have hpos : 0 < values.length := Nat.zero_lt_of_lt (h.lt_length hc)
  unfold successor
  split
  · exact Nat.mod_lt _ hpos
  · exact hpos

end Entries

end Action

/-! ## Which entries are found -/

namespace Value

/-- Each of the values is found at its own entry. -/
def RetracesAll (values cs : List Value) : Prop := ∀ j c, cs[j]? = some c → Retraces values j c

/-- A number is found at an entry that is coerced to an equal number. -/
theorem looseEq_of_number {var : String} {x a b : Value} (hx : VarType.number.coerce var x = .ok a)
    (hb : VarType.number.admits b = true) : x.looseEq b = a.same b := by
  obtain ⟨n, rfl⟩ := exists_number hb
  cases x with
  | number m =>
    obtain rfl := Except.ok.inj hx
    rfl
  | string s =>
    unfold VarType.coerce at hx
    dsimp only at hx
    split at hx
    · rename_i m hm
      obtain rfl := Except.ok.inj hx
      simp only [looseEq, hm]
      rfl
    · cases hx
  | _ => cases hx

/-- A truth value is found at an entry that is the same, and at no text. -/
theorem looseEq_bool {x : Value} {b : Bool} : x.looseEq (.bool b) = true ↔ x = .bool b := by
  cases x with
  | bool a => simp [looseEq, same]
  | _ => simp [looseEq, same]

end Value

namespace Action.Entries

variable {t : VarType} {var : String} {values cs : List Value}

/-- If no value is found in front of its entry, each but the last one has to be found at it. -/
theorem retracesAll_iff (h : Entries t var values cs)
    (hbefore : ∀ (i j : Nat) (x c : Value), i < j → values[i]? = some x → cs[j]? = some c →
      x.looseEq c = false) :
    Value.RetracesAll values cs ↔ ∀ (j : Nat) (x c : Value), j + 1 < values.length →
      values[j]? = some x → cs[j]? = some c → x.looseEq c = true := by
  constructor
  · intro hall j x c hlt hx hc
    obtain ⟨-, ⟨y, hy, hfound⟩ | hlast⟩ := hall j c hc
    · obtain rfl := Option.some.inj (hx.symm.trans hy)
      exact hfound
    · omega
  · intro hfound j c hc
    refine ⟨fun i hi x hx => hbefore i j x c hi hx hc, ?_⟩
    by_cases hlast : j + 1 = values.length
    · exact .inr hlast
    · obtain ⟨x, hx, -⟩ := h.exists_entry hc
      have hlt := h.lt_length hc
      exact .inl ⟨x, hx, hfound j x c (by omega) hx hc⟩

theorem mem_dropLast {xs : List Value} {x : Value} :
    x ∈ xs.dropLast ↔ ∃ j : Nat, j + 1 < xs.length ∧ xs[j]? = some x := by
  rw [List.mem_iff_getElem?]
  refine exists_congr fun j => ?_
  rw [List.getElem?_dropLast]
  by_cases hlt : j < xs.length - 1
  · rw [if_pos hlt]
    exact ⟨fun hx => ⟨by omega, hx⟩, fun hx => hx.2⟩
  · rw [if_neg hlt]
    exact ⟨nofun, fun hx => by omega⟩

/-- A number variable goes round unless an entry is no number. -/
theorem retracesAll_iff_of_number (h : Entries .number var values cs) :
    Value.RetracesAll values cs ↔ ∀ c ∈ cs.dropLast, c ≠ .number Float.nan := by
  have hloose : ∀ {i j : Nat} {x c : Value}, values[i]? = some x → cs[j]? = some c →
      ∃ a, cs[i]? = some a ∧ x.looseEq c = a.same c := by
    intro i j x c hx hc
    obtain ⟨a, ha, hcoerce⟩ := h.exists_coerced hx
    obtain ⟨y, -, hy⟩ := h.exists_entry hc
    exact ⟨a, ha, Value.looseEq_of_number hcoerce (VarType.admits_of_coerce hy)⟩
  have hself : ∀ {j : Nat} {x c : Value}, values[j]? = some x → cs[j]? = some c →
      (x.looseEq c = true ↔ c ≠ .number Float.nan) := by
    intro j x c hx hc
    obtain ⟨a, ha, heq⟩ := hloose hx hc
    obtain rfl := Option.some.inj (ha.symm.trans hc)
    obtain ⟨y, -, hy⟩ := h.exists_entry hc
    obtain ⟨n, rfl⟩ := Value.exists_number (VarType.admits_of_coerce hy)
    rw [heq, Ne, Value.number.injEq]
    exact Float.beq_self_iff
  rw [h.retracesAll_iff]
  · simp only [mem_dropLast, forall_exists_index, and_imp]
    constructor
    · intro hall c j hlt hc
      rw [← h.length_eq] at hlt
      obtain ⟨x, hx, -⟩ := h.exists_entry hc
      exact (hself hx hc).1 (hall j x c hlt hx hc)
    · intro hall j x c hlt hx hc
      rw [h.length_eq] at hlt
      exact (hself hx hc).2 (hall c j hlt hc)
  · intro i j x c hlt hx hc
    obtain ⟨a, ha, heq⟩ := hloose hx hc
    exact heq.trans (h.apart ha hc hlt.ne).2

/-- A boolean variable goes round if its entries are truth values and no texts. -/
theorem retracesAll_iff_of_boolean (h : Entries .boolean var values cs) :
    Value.RetracesAll values cs ↔ ∀ x ∈ values.dropLast, ∃ b, x = .bool b := by
  have hbool : ∀ {j : Nat} {c : Value}, cs[j]? = some c → ∃ b, c = .bool b := by
    intro j c hc
    obtain ⟨y, -, hy⟩ := h.exists_entry hc
    exact Value.exists_bool (VarType.admits_of_coerce hy)
  have hplain : ∀ {i : Nat} {b : Bool}, values[i]? = some (.bool b) → cs[i]? = some (.bool b) := by
    intro i b hx
    obtain ⟨c, hc, hcoerce⟩ := h.exists_coerced hx
    obtain rfl := Except.ok.inj hcoerce
    exact hc
  rw [h.retracesAll_iff]
  · simp only [mem_dropLast, forall_exists_index, and_imp]
    constructor
    · intro hall x j hlt hx
      obtain ⟨c, hc, -⟩ := h.exists_coerced hx
      obtain ⟨b, rfl⟩ := hbool hc
      exact ⟨b, Value.looseEq_bool.1 (hall j x _ hlt hx hc)⟩
    · intro hall j x c hlt hx hc
      obtain ⟨b, rfl⟩ := hall x j hlt hx
      obtain rfl := Option.some.inj ((hplain hx).symm.trans hc)
      exact Value.looseEq_bool.2 rfl
  · intro i j x c hlt hx hc
    obtain ⟨b, rfl⟩ := hbool hc
    rw [Bool.eq_false_iff, Ne, Value.looseEq_bool]
    rintro rfl
    exact (h.apart (hplain hx) hc hlt.ne).1 rfl

/-- A string variable goes round if its entries are texts, or if they are numbers that are read back
from their texts. An entry that was equal to an earlier number as well would have its text. -/
theorem retracesAll_of_string (h : Entries .string var values cs)
    (hplain : (∀ x ∈ values, ∃ s, x = .string s) ∨
      ∀ x ∈ values, ∃ n, x = .number n ∧ Value.ReadsBack n) : Value.RetracesAll values cs := by
  obtain htexts | hnumbers := hplain
  · have hsame : ∀ {i : Nat} {x : Value}, values[i]? = some x → ∃ s, x = .string s ∧
        cs[i]? = some (.string s) := by
      intro i x hx
      obtain ⟨s, rfl⟩ := htexts x (List.mem_of_getElem? hx)
      obtain ⟨c, hc, hcoerce⟩ := h.exists_coerced hx
      obtain rfl := Except.ok.inj hcoerce
      exact ⟨s, rfl, hc⟩
    rw [h.retracesAll_iff]
    · intro j x c _ hx hc
      obtain ⟨s, rfl, hs⟩ := hsame hx
      obtain rfl := Option.some.inj (hs.symm.trans hc)
      exact beq_self_eq_true s
    · intro i j x c hlt hx hc
      obtain ⟨s, rfl, hs⟩ := hsame hx
      obtain ⟨y, hy, -⟩ := h.exists_entry hc
      obtain ⟨s', rfl, hs'⟩ := hsame hy
      obtain rfl := Option.some.inj (hs'.symm.trans hc)
      exact (h.apart hs hc hlt.ne).2
  · have hread : ∀ {i : Nat} {x : Value}, values[i]? = some x → ∃ n y, x = .number n ∧
        cs[i]? = some (.string (formatNumber n)) ∧ parseNumber (formatNumber n) = some y ∧
        (y == n) = true := by
      intro i x hx
      obtain ⟨n, rfl, y, hy, heq⟩ := hnumbers x (List.mem_of_getElem? hx)
      obtain ⟨c, hc, hcoerce⟩ := h.exists_coerced hx
      obtain rfl := Except.ok.inj hcoerce
      exact ⟨n, y, rfl, hc, hy, heq⟩
    rw [h.retracesAll_iff]
    · intro j x c _ hx hc
      obtain ⟨n, y, rfl, hn, hy, heq⟩ := hread hx
      obtain rfl := Option.some.inj (hn.symm.trans hc)
      simp only [Value.looseEq, hy, heq]
    · intro i j x c hlt hx hc
      obtain ⟨n, -, rfl, hn, -⟩ := hread hx
      obtain ⟨z, hz, -⟩ := h.exists_entry hc
      obtain ⟨m, y, rfl, hm, hy, heq⟩ := hread hz
      obtain rfl := Option.some.inj (hm.symm.trans hc)
      simp only [Value.looseEq, hy, Bool.eq_false_iff]
      intro hfound
      refine (h.apart hn hm hlt.ne).1 ?_
      rw [← Value.formatNumber_eq hfound, Value.formatNumber_eq heq]

end Action.Entries

/-! ## Many executions -/

namespace LiveStore

theorem run_executeAll_append (locals : Dict Value) (as bs : List Action) (l : LiveStore) :
    (executeAll locals (as ++ bs)).run l = match (executeAll locals as).run l with
      | (.ok _, l) => (executeAll locals bs).run l
      | (.error e, l) => (.error e, l) := by
  induction as generalizing l with
  | nil => rfl
  | cons a as ih =>
    rw [List.cons_append, executeAll, executeAll, run_bind, run_bind]
    obtain ⟨changed | e, l'⟩ := (execute locals a).run l
    · rfl
    · exact ih l'

variable {l : LiveStore} {var : String} {t : VarType} {values cs : List Value}
  (h : Action.Entries t var values cs) (locals : Dict Value)
include h

/-- An execution goes on from one entry to the next that it finds. -/
theorem Holds.successor {j : Nat} {c : Value} (hl : l.Holds var t c) (hc : cs[j]? = some c) :
    ∃ changed l' c', (execute locals (.cycle var values)).run l = (.ok changed, l') ∧
      cs[Action.successor values c]? = some c' ∧ l'.Holds var t c' := by
  have hlt := h.successor_lt hc
  obtain ⟨c', hc', hcoerce⟩ := h.exists_coerced (List.getElem?_eq_getElem hlt)
  have hnext := (Action.nextOf_eq values c).trans (List.getElem?_eq_getElem hlt)
  obtain ⟨changed, l', hrun, hl'⟩ := hl.cycle hnext hcoerce locals
  exact ⟨changed, l', c', hrun, hc', h.overwrite_eq hc hc' ▸ hl'⟩

/-- Whatever is found, executions go from entry to entry. -/
theorem Holds.exists_cycled {j : Nat} {c : Value} (hl : l.Holds var t c) (hc : cs[j]? = some c)
    (k : Nat) : ∃ (l' : LiveStore) (j' : Nat) (c' : Value),
      (executeAll locals (List.replicate k (.cycle var values))).run l = (.ok (), l') ∧
        cs[j']? = some c' ∧ l'.Holds var t c' := by
  induction k generalizing l j c with
  | zero => exact ⟨l, j, c, rfl, hc, hl⟩
  | succ k ih =>
    obtain ⟨changed, l₁, c₁, hrun, hc₁, hl₁⟩ := hl.successor h locals hc
    obtain ⟨l', j', c', hrest, hc', hl'⟩ := ih hl₁ hc₁
    refine ⟨l', j', c', ?_, hc', hl'⟩
    rw [List.replicate_succ, executeAll, run_bind, hrun]
    exact hrest

/-- If each value is found at its own entry, executions go round. -/
theorem Holds.cycles (hretraces : Value.RetracesAll values cs) {j : Nat}
    {c : Value} (hl : l.Holds var t c) (hc : cs[j]? = some c) (k : Nat) :
    ∃ l' c', (executeAll locals (List.replicate k (.cycle var values))).run l = (.ok (), l') ∧
      cs[(j + k) % cs.length]? = some c' ∧ l'.Holds var t c' := by
  induction k generalizing l j c with
  | zero =>
    refine ⟨l, c, rfl, ?_, hl⟩
    rwa [Nat.add_zero, Nat.mod_eq_of_lt (List.getElem?_eq_some_iff.1 hc).1]
  | succ k ih =>
    obtain ⟨changed, l₁, c₁, hrun, hc₁, hl₁⟩ := hl.successor h locals hc
    rw [(Action.successor_eq_iff (h.lt_length hc)).2 (hretraces j c hc), h.length_eq] at hc₁
    obtain ⟨l', c', hrest, hc', hl'⟩ := ih hl₁ hc₁
    refine ⟨l', c', ?_, ?_, hl'⟩
    · rw [List.replicate_succ, executeAll, run_bind, hrun]
      exact hrest
    · rwa [Nat.mod_add_mod, Nat.add_right_comm, Nat.add_assoc] at hc'

/-- Executions go round only if each value is found at its own entry. After enough of them it is the
turn of any entry. -/
theorem Holds.cycles_iff {i : Nat} {c : Value} (hl : l.Holds var t c) (hc : cs[i]? = some c) :
    (∀ k, ∃ l' c', (executeAll locals (List.replicate k (.cycle var values))).run l = (.ok (), l') ∧
      cs[(i + k) % cs.length]? = some c' ∧ l'.kept.store.get var = .ok c') ↔
    Value.RetracesAll values cs := by
  constructor
  · intro hall j c' hc'
    have hi := (List.getElem?_eq_some_iff.1 hc).1
    have hj := (List.getElem?_eq_some_iff.1 hc').1
    have hturn : (i + (cs.length - i + j)) % cs.length = j := by
      rw [← Nat.add_assoc, Nat.add_sub_cancel' hi.le, Nat.add_mod_left, Nat.mod_eq_of_lt hj]
    obtain ⟨l₁, j₁, c₁, hrun₁, hc₁, hl₁⟩ := hl.exists_cycled h locals hc (cs.length - i + j)
    obtain ⟨l₁', c₁', hrun₁', hc₁', hget₁⟩ := hall (cs.length - i + j)
    obtain rfl : l₁ = l₁' := (Prod.mk.inj (hrun₁.symm.trans hrun₁')).2
    obtain rfl : c₁ = c₁' := Except.ok.inj (hl₁.get.symm.trans hget₁)
    obtain rfl : c₁ = c' := Option.some.inj ((hturn ▸ hc₁').symm.trans hc')
    obtain ⟨changed, l₂, c₂, hrun₂, hc₂, hl₂⟩ := hl₁.successor h locals hc'
    obtain ⟨l₂', c₂', hrun₂', hc₂', hget₂⟩ := hall (cs.length - i + j + 1)
    rw [List.replicate_succ', run_executeAll_append, hrun₁] at hrun₂'
    have hlast : (executeAll locals [.cycle var values]).run l₁ = (.ok (), l₂) := by
      rw [executeAll, run_bind, hrun₂]
      rfl
    obtain rfl : l₂ = l₂' := (Prod.mk.inj (hlast.symm.trans hrun₂')).2
    obtain rfl : c₂ = c₂' := Except.ok.inj (hl₂.get.symm.trans hget₂)
    rw [← Action.successor_eq_iff (h.lt_length hc'), h.eq_of_getElem? hc₂ hc₂', ← Nat.add_assoc,
      Nat.add_mod, hturn, h.length_eq, Nat.add_mod_mod]
  · intro hretraces k
    obtain ⟨l', c', hrun, hc', hl'⟩ := hl.cycles h locals hretraces hc k
    exact ⟨l', c', hrun, hc', hl'.get⟩

omit h

/-- Whatever has been asked of a store, executions of a cycle go round the values, from the entry
that its variable holds, if and only if each value is found at its own entry. A number variable goes
round unless an entry is no number, a boolean one if its entries are truth values and no texts, and
a string one at least if its entries are texts, or numbers that are read back from theirs. -/
theorem Blank.cycled_iff (hl : l.Blank) (history : List Request) {v : Variable}
    (hv : Dict.get? (l.serve history).kept.store.vars var = some v)
    (hentries : Action.Entries v.decl.type var values cs) {i : Nat} (hi : cs[i]? = some v.value) :
    ((∀ k, ∃ l' c,
      (executeAll locals (List.replicate k (.cycle var values))).run (l.serve history) =
        (.ok (), l') ∧ cs[(i + k) % cs.length]? = some c ∧ l'.kept.store.get var = .ok c) ↔
      Value.RetracesAll values cs) ∧
    (v.decl.type = .number →
      (Value.RetracesAll values cs ↔ ∀ c ∈ cs.dropLast, c ≠ .number Float.nan)) ∧
    (v.decl.type = .boolean →
      (Value.RetracesAll values cs ↔ ∀ x ∈ values.dropLast, ∃ b, x = .bool b)) ∧
    (v.decl.type = .string → ((∀ x ∈ values, ∃ s, x = .string s) ∨
      ∀ x ∈ values, ∃ n, x = .number n ∧ Value.ReadsBack n) → Value.RetracesAll values cs) := by
  have hholds : (l.serve history).Holds var v.decl.type v.value :=
    ⟨hl.ordered_serve history, v, hv, rfl, rfl⟩
  refine ⟨hholds.cycles_iff hentries locals hi, fun ht => ?_, fun ht => ?_, fun ht => ?_⟩
  · exact (ht ▸ hentries).retracesAll_iff_of_number
  · exact (ht ▸ hentries).retracesAll_iff_of_boolean
  · exact (ht ▸ hentries).retracesAll_of_string

/-- A size that is kept as text. -/
def size : VariableDecl := { name := "size", type := .string, initial := .number 1 }

/-- Sizes that are listed as numbers. -/
def sizes : List Value := [.number 1, .number 2, .number 3]

/-- Sizes as texts. -/
def sizeTexts : List Value :=
  [.string (formatNumber 1), .string (formatNumber 2), .string (formatNumber 3)]

theorem entries_sizes : Action.Entries .string "size" sizes sizeTexts where
  scalar := .inr (.inl rfl)
  coerced := .cons rfl (.cons rfl (.cons rfl .nil))
  differ := by
    have htexts : [formatNumber 1, formatNumber 2, formatNumber 3].Pairwise (· ≠ ·) := by
      decide +kernel
    have hvalues : sizeTexts = [formatNumber 1, formatNumber 2, formatNumber 3].map .string := rfl
    rw [hvalues, List.pairwise_map]
    refine htexts.imp fun hne => ⟨fun heq => hne (Value.string.inj heq), ?_⟩
    exact beq_eq_false_iff_ne.2 hne

/-- A thousand executions go round the sizes 333 times, and to the next one. -/
theorem cycled_sizes : ∃ l',
    (executeAll [] (List.replicate 1000 (.cycle "size" sizes))).run
      (serve { kept := ⟨{}, none⟩ } [.declare size]) = (.ok (), l') ∧
    l'.kept.store.get "size" = .ok (.string "2") := by
  have hv : Dict.get? (serve { kept := ⟨{}, none⟩ } [.declare size]).kept.store.vars "size" =
      some ⟨size, .string (formatNumber 1), none⟩ := rfl
  have hwhole : ∀ x ∈ sizes, ∃ n, x = .number n ∧ Value.ReadsBack n := by
    have hinteger : Decimal.integer? 1 = some 1 ∧ Decimal.integer? 2 = some 2 ∧
        Decimal.integer? 3 = some 3 := by
      decide +kernel
    obtain ⟨hone, htwo, hthree⟩ := hinteger
    simp only [sizes, List.forall_mem_cons, Value.number.injEq, exists_eq_left']
    exact ⟨Value.readsBack_of_integer? hone (by decide),
      Value.readsBack_of_integer? htwo (by decide),
      Value.readsBack_of_integer? hthree (by decide), List.forall_mem_nil _⟩
  obtain ⟨hround, -, -, hstring⟩ := Blank.cycled_iff [] ⟨rfl, rfl, rfl⟩ [.declare size] hv
    entries_sizes (i := 0) rfl
  obtain ⟨l', c, hrun, hc, hget⟩ := hround.2 (hstring rfl (.inr hwhole)) 1000
  have htext : formatNumber 2 = "2" := by decide +kernel
  obtain rfl : Value.string (formatNumber 2) = c := Option.some.inj hc
  exact ⟨l', hrun, htext ▸ hget⟩

/-- A switch that is kept as text. -/
def switch : VariableDecl := { name := "switch", type := .string, initial := .bool true }

/-- Truth values that are kept as text are not found again, and an execution leaves the first of
them where it is. -/
theorem not_cycled_switch :
    Action.Entries .string "switch" [.bool true, .bool false] [.string "true", .string "false"] ∧
    (serve { kept := ⟨{}, none⟩ } [.declare switch]).kept.store.get "switch" =
      .ok (.string "true") ∧
    ∃ l', (executeAll [] [.cycle "switch" [.bool true, .bool false]]).run
        (serve { kept := ⟨{}, none⟩ } [.declare switch]) = (.ok (), l') ∧
      l'.kept.store.get "switch" = .ok (.string "true") := by
  have hholds : (serve { kept := ⟨{}, none⟩ } [.declare switch]).Holds "switch" .string
      (.string "true") :=
    ⟨Blank.ordered_serve ⟨rfl, rfl, rfl⟩ _, ⟨switch, .string "true", none⟩, rfl, rfl, rfl⟩
  refine ⟨⟨.inr (.inl rfl), .cons rfl (.cons rfl .nil), ?_⟩, hholds.get, ?_⟩
  · have hne : "true" ≠ "false" := by decide
    exact List.pairwise_pair.2 ⟨fun heq => hne (Value.string.inj heq), beq_eq_false_iff_ne.2 hne⟩
  · have hnext : Action.nextOf [.bool true, .bool false] (.string "true") = some (.bool true) := rfl
    have hcoerce : VarType.string.coerce "switch" (.bool true) = .ok (.string "true") := rfl
    obtain ⟨changed, l', hrun, hl'⟩ := hholds.cycle hnext hcoerce []
    refine ⟨l', ?_, hl'.get⟩
    rw [executeAll, run_bind, hrun]
    rfl

end LiveStore

end Archipelago
