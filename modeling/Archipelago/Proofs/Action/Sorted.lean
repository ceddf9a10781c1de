import Archipelago.Proofs.Action.Sorting
import Archipelago.Proofs.Action.Spread
import Archipelago.Proofs.Store.Overwrites

/-!
# Lists that are sorted

A sort reads a list and writes a sorted one into its target, and the list that it has read changes
only if it follows the target. It fails only where it has compared keys that cannot be compared. So
if texts of numbers stand between numbers and other texts, it may or may not fail on the same items.
-/

namespace Archipelago

namespace Action

/-! ## Keys -/

/-- The items with the keys that they are sorted by. -/
def keyedItems (s : Store) (captured : Dict Value) (key : Option String) (items : List Value) :
    Except ActionError (List (Value × Value)) :=
  match key with
  | none => .ok (items.map fun x => (x, x))
  | some src => do
    let e ← parse s src
    evaluated (evalItems s captured e 0 items)

theorem map_snd_of_evalItems {s : Store} {captured : Dict Value} {e : Expr} {i : Nat}
    {items : List Value} {keyed : List (Value × Value)}
    (h : evalItems s captured e i items = .ok keyed) : keyed.map (·.2) = items := by
  induction items generalizing i keyed with
  | nil =>
    obtain rfl := Except.ok.inj h
    rfl
  | cons x items ih =>
    obtain ⟨v, -, h⟩ := bind_eq_ok.1 h
    obtain ⟨rest, hrest, h⟩ := bind_eq_ok.1 h
    obtain rfl := Except.ok.inj h
    rw [List.map_cons, ih hrest]

theorem map_snd_of_keyedItems {s : Store} {captured : Dict Value} {key : Option String}
    {items : List Value} {keyed : List (Value × Value)}
    (h : keyedItems s captured key items = .ok keyed) : keyed.map (·.2) = items := by
  cases key with
  | none =>
    obtain rfl := Except.ok.inj h
    simp [Function.comp_def]
  | some src =>
    obtain ⟨e, -, h⟩ := bind_eq_ok.1 h
    exact map_snd_of_evalItems (mapError_eq_ok.1 h)

theorem writes_sort {s : Store} {captured : Dict Value} {var target : String} {key : Option String}
    {order : SortOrder} {items : List Value} {keyed : List (Value × Value)}
    (hsource : source s var target = .ok items)
    (hkeyed : keyedItems s captured key items = .ok keyed) :
    (sort var target key order).writes s captured =
      (evaluated (sortByKey order keyed)).map fun sorted => [.set target (.array sorted)] := by
  cases key with
  | none =>
    obtain rfl := Except.ok.inj hkeyed
    simp only [writes, hsource, bind, Except.bind]
    rfl
  | some src =>
    obtain ⟨e, he, hkeyed⟩ := bind_eq_ok.1 hkeyed
    simp only [writes, hsource, he, hkeyed, bind, Except.bind]
    rfl

end Action

/-- What the items of a list are as numbers. -/
def Value.numbers? : Value → Option (List (Option Float))
  | .array items => some (items.map Value.toNumber?)
  | _ => none

theorem Store.exists_of_numbers? {s : Store} {name : String} {numbers : List (Option Float)}
    (h : (s.get name).toOption.bind Value.numbers? = some numbers) :
    ∃ items, s.get name = .ok (.array items) ∧ items.map Value.toNumber? = numbers := by
  obtain ⟨v, hv, h⟩ := Option.bind_eq_some_iff.1 h
  cases v with
  | array items => exact ⟨items, toOption_eq_some.1 hv, Option.some.inj h⟩
  | _ => cases h

namespace LiveStore

open Value (Comparable Preordered Bridged)

/-- A list in a variable with a key for each item, and a variable that a list can be put into. -/
structure Sortable (l : LiveStore) (locals : Dict Value) (var target : String) (key : Option String)
    (items : List Value) (keyed : List (Value × Value)) : Prop where
  source : l.kept.store.get var = .ok (.array items)
  keyed : Action.keyedItems l.kept.store locals key items = .ok keyed
  target : ∃ v, Dict.get? l.kept.store.vars target = some v ∧ v.decl.type = .array

variable {l : LiveStore} {locals : Dict Value} {var target : String} {key : Option String}
  {items : List Value} {keyed : List (Value × Value)} {order : SortOrder}

namespace Sortable

variable (h : l.Sortable locals var target key items keyed)
include h

theorem writes_eq : (Action.sort var target key order).writes l.kept.store locals =
    (Action.evaluated (Action.sortByKey order keyed)).map fun sorted =>
      [.set target (.array sorted)] := by
  obtain ⟨v, hv, -⟩ := h.target
  refine Action.writes_sort ?_ h.keyed
  have htarget : Action.current l.kept.store target = .ok v.value := by
    rw [Action.current, Store.get, hv]
    rfl
  have hvar : Action.current l.kept.store var = .ok (.array items) := by
    rw [Action.current, h.source]
    rfl
  simp only [Action.source, htarget, hvar, bind, Except.bind]
  rfl

theorem run_error {e : EvalError} (hsort : Action.sortByKey order keyed = .error e) :
    (execute locals (.sort var target key order)).run l = (.error (.eval e), l) :=
  run_execute_error (by rw [h.writes_eq, hsort]; rfl)

/-- What is sorted is in the target afterwards, or an equal list has been there. -/
theorem exists_run (hl : l.kept.store.Ordered) {sorted : List Value}
    (hsort : Action.sortByKey order keyed = .ok sorted) : ∃ changed l' commit w,
      (execute locals (.sort var target key order)).run l = (.ok changed, l') ∧
      l.kept.store.apply [.set target (.array sorted)] = .ok (l'.kept.store, commit) ∧
      l'.kept.store.get target = .ok w ∧
      (w = .array sorted ∨ w.same (.array sorted) = true) := by
  obtain ⟨v, hv, htype⟩ := h.target
  have hwrites : (Action.sort var target key order).writes l.kept.store locals =
      .ok [.set target (.array sorted)] := by
    rw [h.writes_eq, hsort]
    rfl
  have hcoerce : v.decl.type.coerce target (.array sorted) = .ok (.array sorted) := by
    rw [htype]
    rfl
  obtain ⟨changed, l', commit, hrun, happly, hv'⟩ := exists_execute_set hl hwrites hv hcoerce
  refine ⟨changed, l', commit, _, hrun, happly, by rw [Store.get, hv'], ?_⟩
  unfold Value.overwrite
  split
  · exact .inr ‹_›
  · exact .inl rfl

end Sortable

/-! ## Keys in an order -/

/-- Whatever has been asked of a store, a sort by keys that are in an order succeeds. In the target
are the items in the order of their keys then, those with equal keys as they were, and the list that
is sorted stays as it is, unless it follows the target. -/
theorem Blank.exists_sorted (hl : l.Blank) (history : List Request) (order : SortOrder)
    (h : (l.serve history).Sortable locals var target key items keyed)
    (hkeys : Preordered (keyed.map (·.1))) : ∃ changed l' sorted w,
      (execute locals (.sort var target key order)).run (l.serve history) = (.ok changed, l') ∧
      Action.StablySorted order keyed sorted ∧ (sorted.map (·.2)).Perm items ∧
      l'.kept.store.get target = .ok w ∧
      (w = .array (sorted.map (·.2)) ∨ w.same (.array (sorted.map (·.2))) = true) ∧
      (¬(l.serve history).kept.store.Follows [target] var →
        l'.kept.store.get var = .ok (.array items)) := by
  obtain ⟨sorted, hsort, hsorted⟩ := Action.exists_stablySorted order hkeys
  obtain ⟨changed, l', commit, w, hrun, happly, hw, hsame⟩ :=
    h.exists_run (hl.ordered_serve history) hsort
  refine ⟨changed, l', sorted, w, hrun, hsorted, ?_, hw, hsame, fun hfollows => ?_⟩
  · have hperm := hsorted.perm.map (·.2)
    rwa [Action.map_snd_of_keyedItems h.keyed] at hperm
  · have hkept := (Store.apply_tracks happly).kept var fun hmem =>
      hfollows (Store.follows_of_mem_changed happly (by simp [Write.name]) var hmem)
    rw [Store.get, hkept, ← Store.get, h.source]

/-- Versions in no order. -/
def versions : VariableDecl where
  name := "versions"
  type := .array
  initial := .array [.string "2", .string "1.0", .string "1"]

/-- Where the versions are put. -/
def ordered : VariableDecl := { name := "ordered", type := .array, initial := .array [] }

/-- The versions with themselves for keys. -/
def keyedVersions : List (Value × Value) :=
  [.string "2", .string "1.0", .string "1"].map fun x => (x, x)

/-- The versions are put into another variable in order, and stay as they are in their own. Two of
them are equal as numbers. -/
theorem exists_sorted_versions : ∃ changed l' sorted w,
    (execute [] (.sort "versions" "ordered" none .asc)).run
      (serve { kept := ⟨{}, none⟩ } [.declare versions, .declare ordered]) = (.ok changed, l') ∧
    Action.StablySorted .asc keyedVersions sorted ∧ l'.kept.store.get "ordered" = .ok w ∧
    (w = .array (sorted.map (·.2)) ∨ w.same (.array (sorted.map (·.2))) = true) ∧
    l'.kept.store.get "versions" = .ok versions.initial := by
  have hsortable : (serve { kept := ⟨{}, none⟩ } [.declare versions, .declare ordered]).Sortable []
      "versions" "ordered" none [.string "2", .string "1.0", .string "1"] keyedVersions :=
    ⟨rfl, rfl, ⟨ordered, .array [], none⟩, rfl, rfl⟩
  have hkeys : Preordered (keyedVersions.map (·.1)) := by
    refine .of_numbers fun a ha => ?_
    have hnumerals : ∀ s ∈ ["2", "1.0", "1"], (parseNumber s).isSome := by decide +kernel
    obtain ⟨s, hs, rfl⟩ : ∃ s ∈ ["2", "1.0", "1"], Value.string s = a := by
      simpa [keyedVersions, eq_comm] using ha
    obtain ⟨x, hx⟩ := Option.isSome_iff_exists.1 (hnumerals s hs)
    exact ⟨x, hx, Value.ne_nan_of_parseNumber hx⟩
  obtain ⟨changed, l', sorted, w, hrun, hsorted, -, hw, hsame, hkept⟩ :=
    Blank.exists_sorted ⟨rfl, rfl, rfl⟩ _ .asc hsortable hkeys
  refine ⟨changed, l', sorted, w, hrun, hsorted, hw, hsame, hkept fun hfollows => ?_⟩
  cases hfollows with
  | named hmem => exact absurd hmem (by decide)
  | computed hv hcomputed =>
    obtain rfl := Option.some.inj hv
    cases hcomputed

/-- A list, a copy of it that follows it, and a number. -/
def copied : List Request :=
  [.declare { name := "list", type := .array, initial := .array [.number 2, .number 1] },
    .declare { name := "copy", type := .computed, initial := .undefined
               expression := some "$vars.list" },
    .declare { name := "count", type := .number, initial := .number 0 }]

/-- What follows the target is sorted with it, and no list is sorted into a number. -/
theorem sort_spreads : ∃ items, Preordered items ∧
    (serve { kept := ⟨{}, none⟩ } copied).kept.store.get "copy" = .ok (.array items) ∧
    (∃ changed l', (execute [] (.sort "copy" "list" none .asc)).run
        (serve { kept := ⟨{}, none⟩ } copied) = (.ok changed, l') ∧
      l'.kept.store.get "copy" ≠ .ok (.array items)) ∧
    ((execute [] (.sort "copy" "count" none .asc)).run (serve { kept := ⟨{}, none⟩ } copied)).1 =
      .error (.typeMismatch "count" "number" "array") := by
  have hbefore : ((serve { kept := ⟨{}, none⟩ } copied).kept.store.get "copy").toOption.bind
      Value.numbers? = some [some 2, some 1] := by
    decide +kernel
  have hafter : (((execute [] (.sort "copy" "list" none .asc)).run
      (serve { kept := ⟨{}, none⟩ } copied)).2.kept.store.get "copy").toOption.bind
        Value.numbers? = some [some 1, some 2] := by
    decide +kernel
  have hok : ((execute [] (.sort "copy" "list" none .asc)).run
      (serve { kept := ⟨{}, none⟩ } copied)).1 = .ok ["list", "copy"] := by
    decide +kernel
  obtain ⟨items, hitems, hnumbers⟩ := Store.exists_of_numbers? hbefore
  refine ⟨items, .of_numbers fun a ha => ?_, hitems, ?_, by decide +kernel⟩
  · have hnan : (2 : Float) ≠ Float.nan ∧ (1 : Float) ≠ Float.nan := by decide +kernel
    have hnumber : a.toNumber? ∈ [some 2, some 1] := hnumbers ▸ List.mem_map_of_mem ha
    obtain h | h := List.mem_pair.1 hnumber
    · exact ⟨2, h, hnan.1⟩
    · exact ⟨1, h, hnan.2⟩
  · cases hrun : (execute [] (.sort "copy" "list" none .asc)).run
      (serve { kept := ⟨{}, none⟩ } copied) with
    | mk r l' =>
      rw [hrun] at hok hafter
      obtain rfl : r = .ok ["list", "copy"] := hok
      refine ⟨_, l', rfl, fun hsame => ?_⟩
      dsimp only at hafter
      rw [hsame] at hafter
      have hturned := hnumbers.symm.trans (Option.some.inj hafter)
      exact absurd hturned (by decide +kernel)

/-! ## Keys that cannot be compared -/

/-- The execution fails since a value is of the wrong type. -/
def Mismatches (l : LiveStore) (locals : Dict Value) (a : Action) : Prop :=
  ∃ e, ((execute locals a).run l).1 = .error e ∧ e.kind = .typeMismatch

theorem Sortable.mismatches_iff (h : l.Sortable locals var target key items keyed)
    (hl : l.kept.store.Ordered) (order : SortOrder) (hbridged : ¬Bridged (keyed.map (·.1))) :
    l.Mismatches locals (.sort var target key order) ↔ ¬(keyed.map (·.1)).Pairwise Comparable := by
  obtain ⟨sorted, hsort, hperm, hchain⟩ | ⟨e, hsort, hkind, hnot⟩ :=
    Action.sortByKey_cases order keyed
  · obtain ⟨changed, l', -, -, hrun, -⟩ := h.exists_run hl hsort
    refine iff_of_false ?_ (not_not.2 ?_)
    · rintro ⟨e, herror, -⟩
      rw [hrun] at herror
      cases herror
    · have hkeys := hperm.map (·.1)
      have hpairwise := Value.pairwise_of_isChain hchain fun hb => hbridged (hb.mono hkeys.subset)
      exact (hkeys.pairwise_iff Comparable.symm).1 hpairwise
  · refine iff_of_true ⟨.eval e, ?_, hkind⟩ hnot
    rw [h.run_error hsort]

/-- Whatever has been asked of a store, a sort that fails has keys that cannot be compared. If the
keys are not numbers, texts of numbers and other texts at once it fails whenever it has such keys,
and other executions with the same keys in another order fail if it does. -/
theorem Blank.sort_mismatches_iff (hl : l.Blank) (history : List Request) (order : SortOrder)
    (h : (l.serve history).Sortable locals var target key items keyed) :
    (∀ e, ((execute locals (.sort var target key order)).run (l.serve history)).1 = .error e →
      e.kind = .typeMismatch ∧ ¬(keyed.map (·.1)).Pairwise Comparable) ∧
    (¬Bridged (keyed.map (·.1)) →
      ((l.serve history).Mismatches locals (.sort var target key order) ↔
        ¬(keyed.map (·.1)).Pairwise Comparable) ∧
      ∀ (m : LiveStore) (later : List Request) (locals' : Dict Value) (var' target' : String)
        (key' : Option String) (items' : List Value) (keyed' : List (Value × Value))
        (order' : SortOrder), m.Blank →
        (m.serve later).Sortable locals' var' target' key' items' keyed' →
        (keyed'.map (·.1)).Perm (keyed.map (·.1)) →
        ((m.serve later).Mismatches locals' (.sort var' target' key' order') ↔
          (l.serve history).Mismatches locals (.sort var target key order))) := by
  have hordered := hl.ordered_serve history
  refine ⟨fun e herror => ?_, fun hbridged => ⟨h.mismatches_iff hordered order hbridged, ?_⟩⟩
  · obtain ⟨sorted, hsort, -⟩ | ⟨e', hsort, hkind, hnot⟩ := Action.sortByKey_cases order keyed
    · obtain ⟨changed, l', -, -, hrun, -⟩ := h.exists_run hordered hsort
      rw [hrun] at herror
      cases herror
    · rw [h.run_error hsort] at herror
      obtain rfl := Except.error.inj herror
      exact ⟨hkind, hnot⟩
  · intro m later locals' var' target' key' items' keyed' order' hm h' hperm
    have hbridged' : ¬Bridged (keyed'.map (·.1)) := fun hb => hbridged (hb.mono hperm.subset)
    rw [h.mismatches_iff hordered order hbridged,
      h'.mismatches_iff (hm.ordered_serve later) order' hbridged',
      hperm.pairwise_iff Comparable.symm]

/-- A list with these items. -/
def mixed (items : List Value) : VariableDecl where
  name := "mixed"
  type := .array
  initial := .array items

theorem sortable_mixed (items : List Value) :
    (serve { kept := ⟨{}, none⟩ } [.declare (mixed items)]).Sortable [] "mixed" "mixed" none items
      (items.map fun x => (x, x)) :=
  ⟨rfl, rfl, ⟨mixed items, .array items, none⟩, rfl, rfl⟩

/-- A number and a text that holds none cannot be compared. -/
theorem not_comparable_x (x : Float) : ¬(Value.number x).Comparable (.string "x") := by
  have hword : (parseNumber "x").isNone := by decide +kernel
  rw [Value.comparable_iff]
  rintro (⟨-, y, -, hy⟩ | ⟨s, -, hs, -⟩)
  · rw [Value.toNumber?, Option.isNone_iff_eq_none.1 hword] at hy
    cases hy
  · cases hs

/-- A number and a text that holds none are sorted neither way, wherever they stand. -/
theorem sort_mismatches_mixed :
    (serve { kept := ⟨{}, none⟩ } [.declare (mixed [.number 3, .string "x"])]).Mismatches []
      (.sort "mixed" "mixed" none .asc) ∧
    (serve { kept := ⟨{}, none⟩ } [.declare (mixed [.string "x", .number 3])]).Mismatches []
      (.sort "mixed" "mixed" none .desc) := by
  have hbridged : ¬Bridged [.number 3, .string "x"] := by
    rintro ⟨-, ⟨s, x, hs, hx⟩, -⟩
    obtain h | h := List.mem_pair.1 hs
    · cases h
    · obtain rfl := Value.string.inj h
      refine not_comparable_x 3 (Value.comparable_iff.2 (.inl ⟨3, x, rfl, hx⟩))
  obtain ⟨-, hsort⟩ := Blank.sort_mismatches_iff ⟨rfl, rfl, rfl⟩ _ .asc
    (sortable_mixed [.number 3, .string "x"])
  obtain ⟨hfails, hothers⟩ := hsort hbridged
  have hfirst := hfails.2 fun hall => not_comparable_x 3 (List.pairwise_pair.1 hall)
  refine ⟨hfirst, ?_⟩
  exact (hothers _ _ _ _ _ _ _ _ .desc ⟨rfl, rfl, rfl⟩ (sortable_mixed [.string "x", .number 3])
    (.swap _ _ _)).2 hfirst

/-- With a text of a number between them a number and a text that holds none are sorted, and are not
compared. -/
theorem not_sort_mismatches_bridged :
    ¬[Value.number 1, .string "2", .string "x"].Pairwise Comparable ∧
    ((execute [] (.sort "mixed" "mixed" none .asc)).run (serve { kept := ⟨{}, none⟩ }
      [.declare (mixed [.number 1, .string "2", .string "x"])])).1 = .ok [] ∧
    (serve { kept := ⟨{}, none⟩ }
      [.declare (mixed [.number 1, .string "x", .string "2"])]).Mismatches []
        (.sort "mixed" "mixed" none .asc) := by
  refine ⟨fun hall => ?_, by decide +kernel, .eval (.typeMismatch "number" "string"), ?_, rfl⟩
  · exact not_comparable_x 1 ((List.pairwise_cons.1 hall).1 _ (by simp))
  · decide +kernel

end LiveStore

end Archipelago
