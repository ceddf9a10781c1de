import Archipelago.Proofs.Store.Atomic
import Archipelago.Proofs.Store.Fresh
import Archipelago.Proofs.Store.History
import Archipelago.Proofs.Store.Saved

/-!
# What a variable holds after a batch

The writes of a batch go through their variables one after the other, and one of an equal value is
left out. Values can be equal and yet differ: the members of an object may stand in another order,
and there are two zeros. So the last write of a variable counts, but what it writes may be another
spelling of what stays.
-/

namespace Archipelago

/-- What is there after a write. -/
def Value.overwrite (old new : Value) : Value := if old.same new then old else new

/-- A write leaves what it writes, unless it meets an equal value that is not the same. -/
theorem Value.overwrite_eq_iff {old new : Value} :
    old.overwrite new = new ↔ (old.same new = true → old = new) := by
  unfold overwrite
  split
  · rename_i h
    simp [h]
  · rename_i h
    simp [h]

/-- Texts that are equal are the same. -/
theorem Value.eq_of_same_string {v : Value} {text : String} (h : v.same (.string text) = true) :
    v = .string text := by
  cases v with
  | string s => rw [eq_of_beq h]
  | _ => cases h

namespace Store

variable {s s' : Store} {ws : List Write} {c : Commit}

/-- The values for one variable among those that are staged. -/
def offers (staged : List (String × Value)) (name : String) : List Value :=
  (staged.filter (·.1 = name)).map (·.2)

theorem mem_offers {staged : List (String × Value)} {name : String} {x : Value} :
    x ∈ offers staged name ↔ (name, x) ∈ staged := by
  simp [offers]

theorem offers_cons (p : String × Value) (staged : List (String × Value)) (name : String) :
    offers (p :: staged) name =
      if p.1 = name then p.2 :: offers staged name else offers staged name := by
  unfold offers
  by_cases hname : p.1 = name
  · simp [hname]
  · simp [hname]

theorem offers_append (staged more : List (String × Value)) (name : String) :
    offers (staged ++ more) name = offers staged name ++ offers more name := by
  simp [offers]

/-! ## Staging -/

/-- The writes of a batch are staged one part after the other. -/
theorem stageAll_append {ws later : List Write} {staged : List (String × Value)}
    (h : s.stageAll (ws ++ later) = .ok staged) : ∃ first rest, s.stageAll ws = .ok first ∧
      s.stageAll later = .ok rest ∧ staged = first ++ rest := by
  induction ws generalizing staged with
  | nil => exact ⟨[], staged, rfl, h, rfl⟩
  | cons w ws ih =>
    obtain ⟨p, hp, h⟩ := bind_eq_ok.1 h
    obtain ⟨more, hmore, h⟩ := bind_eq_ok.1 h
    obtain rfl : p :: more = staged := Except.ok.inj h
    obtain ⟨first, rest, hfirst, hrest, rfl⟩ := ih hmore
    refine ⟨p :: first, rest, ?_, hrest, rfl⟩
    rw [stageAll, hp, hfirst]
    rfl

/-- A batch succeeds if all of its writes can be staged. -/
theorem exists_apply {staged : List (String × Value)} (h : s.stageAll ws = .ok staged) :
    ∃ s' c, s.apply ws = .ok (s', c) := by
  unfold apply
  rw [h]
  exact ⟨_, _, rfl⟩

/-! ## One variable -/

namespace Batch

variable {b : Batch}

theorem get?_write (b : Batch) (name other : String) (x : Value) :
    Dict.get? (b.write name x).store.vars other =
      if name = other then
        (Dict.get? b.store.vars other).map fun v => { v with value := v.value.overwrite x }
      else Dict.get? b.store.vars other := by
  by_cases hname : name = other
  · subst hname
    unfold Batch.write Value.overwrite
    cases hv : Dict.get? b.store.vars name with
    | none => simp [hv]
    | some v =>
      by_cases hsame : v.value.same x = true
      · simp [hv, hsame]
      · simp [hsame, get?_setValue_self hv]
  · rw [if_neg hname, get?_write_of_ne hname]

/-- Of a variable each value is offered to what those before it have left. -/
theorem get?_writes (b : Batch) (staged : List (String × Value)) (name : String) :
    Dict.get? (staged.foldl (fun b w => b.write w.1 w.2) b).store.vars name =
      (Dict.get? b.store.vars name).map fun v =>
        { v with value := (offers staged name).foldl Value.overwrite v.value } := by
  induction staged generalizing b with
  | nil => simp [offers]
  | cons w staged ih =>
    rw [List.foldl_cons, ih, get?_write, offers_cons]
    by_cases hname : w.1 = name
    · simp [hname, Function.comp_def]
    · simp [hname]

/-- To evaluate variables anew does nothing to one that is not computed. -/
theorem get?_refresh_of_plain {name other : String} {v : Variable}
    (hv : Dict.get? b.store.vars other = some v) (hexpr : v.expr = none) :
    Dict.get? (b.refresh name).store.vars other = some v := by
  by_cases hne : name = other
  · subst hne
    obtain ⟨decl, value, expr⟩ := v
    obtain rfl : expr = none := hexpr
    have hrecompute : b.store.recompute? name = none := by simp only [recompute?, hv]
    unfold refresh
    simp only [hv, hrecompute, ite_self]
  · rw [get?_refresh_of_ne hne, hv]

theorem get?_refreshes_of_plain (names : List String) {other : String} {v : Variable}
    (hv : Dict.get? b.store.vars other = some v) (hexpr : v.expr = none) :
    Dict.get? (names.foldl Batch.refresh b).store.vars other = some v := by
  induction names generalizing b with
  | nil => exact hv
  | cons name names ih => exact ih (get?_refresh_of_plain hv hexpr)

end Batch

/-- What a batch leaves of a variable that is not computed. -/
theorem get?_apply_of_plain {staged : List (String × Value)} (h : s.apply ws = .ok (s', c))
    (hstaged : s.stageAll ws = .ok staged) {name : String} {v : Variable}
    (hv : Dict.get? s.vars name = some v) (hexpr : v.expr = none) :
    Dict.get? s'.vars name =
      some { v with value := (offers staged name).foldl Value.overwrite v.value } := by
  obtain ⟨staged', hstaged', heq, -⟩ := apply_eq_ok h
  obtain rfl : staged = staged' := Except.ok.inj (hstaged.symm.trans hstaged')
  have hwritten := Batch.get?_writes ⟨s, []⟩ staged name
  rw [hv, Option.map_some] at hwritten
  have hsettled := Batch.get?_refreshes_of_plain s.computedOrder hwritten hexpr
  rwa [heq] at hsettled

/-- Nothing is staged for a variable that is not written. -/
theorem offers_of_notMem {staged : List (String × Value)} (h : s.stageAll ws = .ok staged)
    {name : String} (hname : name ∉ ws.map Write.name) : offers staged name = [] := by
  rw [offers, List.map_eq_nil_iff, List.filter_eq_nil_iff]
  intro p hp heq
  refine hname ?_
  rw [← names_stageAll h, ← of_decide_eq_true heq]
  exact List.mem_map_of_mem hp

/-! ## The last write -/

/-- The last write of a variable meets what the batch up to it would have left. -/
theorem Ordered.get_apply_of_last (hs : s.Ordered) {before after : List Write} {w : Write}
    (h : s.apply (before ++ w :: after) = .ok (s', c)) (hlast : w.name ∉ after.map Write.name) :
    ∃ v old x, Dict.get? s.vars w.name = some v ∧
      v.decl.type.coerce w.name (w.offered v.decl) = .ok x ∧
      (∃ s₁ c₁, s.apply before = .ok (s₁, c₁) ∧ s₁.get w.name = .ok old) ∧
      s'.get w.name = .ok (old.overwrite x) := by
  obtain ⟨staged, hstaged, -, -⟩ := apply_eq_ok h
  obtain ⟨first, rest, hfirst, hrest, rfl⟩ := stageAll_append hstaged
  obtain ⟨p, hp, hrest⟩ := bind_eq_ok.1 hrest
  obtain ⟨more, hmore, hrest⟩ := bind_eq_ok.1 hrest
  obtain rfl : p :: more = rest := Except.ok.inj hrest
  obtain ⟨v, hv, hwritable, hname, hcoerce⟩ := stage_eq_ok hp
  have hexpr := hs.expr_eq_none hv hwritable
  obtain ⟨s₁, c₁, hbefore⟩ := exists_apply hfirst
  have hold := get?_apply_of_plain hbefore hfirst hv hexpr
  have hnow := get?_apply_of_plain h hstaged hv hexpr
  have hoffers : offers (first ++ p :: more) w.name = offers first w.name ++ [p.2] := by
    rw [offers_append, offers_cons, if_pos hname, offers_of_notMem hmore hlast]
  refine ⟨v, (offers first w.name).foldl Value.overwrite v.value, p.2, hv, hcoerce,
    ⟨s₁, c₁, hbefore, ?_⟩, ?_⟩
  · rw [get, hold]
  · rw [get, hnow, hoffers, List.foldl_append]
    rfl

theorem get_apply_of_unwritten (h : s.apply ws = .ok (s', c)) {name : String} {v : Variable}
    (hv : Dict.get? s.vars name = some v) (hexpr : v.expr = none)
    (hname : name ∉ ws.map Write.name) : s'.get name = s.get name := by
  obtain ⟨staged, hstaged, -, -⟩ := apply_eq_ok h
  have hnow := get?_apply_of_plain h hstaged hv hexpr
  rw [offers_of_notMem hstaged hname] at hnow
  rw [get, get, hnow, hv]
  rfl

/-!
## Batches of one write

Most actions write one variable once. Such a batch goes through if what it writes can be coerced to
the type of the variable, and of the variables that are not computed it changes no other.
-/

section

variable {name : String}

/-- A write of one variable that can be written goes through. -/
theorem Ordered.exists_set (hs : s.Ordered) {v : Variable} {x c : Value}
    (hv : Dict.get? s.vars name = some v) (hc : v.decl.type.coerce name x = .ok c) :
    ∃ s' commit, s.apply [.set name x] = .ok (s', commit) ∧
      Dict.get? s'.vars name = some { v with value := v.value.overwrite c } := by
  have hwritable : v.decl.type.isReadOnly = false := by
    cases htype : v.decl.type with
    | computed => rw [htype] at hc; cases hc
    | urlParam => rw [htype] at hc; cases hc
    | _ => rfl
  have hstaged : s.stageAll [.set name x] = .ok [(name, c)] := by
    have hfirst : s.stage (.set name x) = .ok (name, c) := by
      simp only [stage, Write.name, hv, hwritable, Bool.false_eq_true, if_false, hc]
      rfl
    rw [stageAll, hfirst]
    rfl
  obtain ⟨s', commit, happly⟩ := exists_apply hstaged
  refine ⟨s', commit, happly, ?_⟩
  rw [get?_apply_of_plain happly hstaged hv (hs.expr_eq_none hv hwritable)]
  simp [offers]

/-- What is written has been coerced to the type of its variable. -/
theorem exists_coerce_of_set {x : Value} {commit : Commit}
    (h : s.apply [.set name x] = .ok (s', commit)) :
    ∃ v c, Dict.get? s.vars name = some v ∧ v.decl.type.coerce name x = .ok c := by
  obtain ⟨staged, hstaged, -, -⟩ := apply_eq_ok h
  obtain ⟨p, hp, -⟩ := bind_eq_ok.1 hstaged
  obtain ⟨v, hv, -, -, hcoerce⟩ := stage_eq_ok hp
  exact ⟨v, p.2, hv, hcoerce⟩

end

end Store

namespace LiveStore

/-! ## Whatever has been asked before -/

variable {l : LiveStore}

/-- Whatever has been asked of a store, a batch that succeeds leaves all that it does not write and
that is not computed. Of the writes of a variable the last one counts, and what it writes is there
afterwards unless the writes before it have left an equal value that is not the same. -/
theorem Blank.get_overwritten (hl : l.Blank) (history : List Request) {ws : List Write} {s' : Store}
    {c : Commit} (h : (l.serve history).kept.store.apply ws = .ok (s', c)) :
    (∀ name v, Dict.get? (l.serve history).kept.store.vars name = some v → v.expr = none →
      name ∉ ws.map Write.name → s'.get name = (l.serve history).kept.store.get name) ∧
    ∀ before w after, ws = before ++ w :: after → w.name ∉ after.map Write.name →
      ∃ v old x, Dict.get? (l.serve history).kept.store.vars w.name = some v ∧
        v.decl.type.coerce w.name (w.offered v.decl) = .ok x ∧
        (∃ s₁ c₁, (l.serve history).kept.store.apply before = .ok (s₁, c₁) ∧
          s₁.get w.name = .ok old) ∧
        s'.get w.name = .ok (old.overwrite x) ∧
        (s'.get w.name = .ok x ↔ (old.same x = true → old = x)) := by
  refine ⟨fun name v hv hexpr hname => Store.get_apply_of_unwritten h hv hexpr hname, ?_⟩
  rintro before w after rfl hlast
  obtain ⟨v, old, x, hv, hcoerce, hold, hnow⟩ :=
    (hl.ordered_serve history).get_apply_of_last h hlast
  refine ⟨v, old, x, hv, hcoerce, hold, hnow, ?_⟩
  rw [hnow, Except.ok.injEq, Value.overwrite_eq_iff]

/-- A point with its name. -/
def labelled : List Request :=
  [.declare { name := "label", type := .string, initial := .string "A" },
    .declare
      { name := "point", type := .object
        initial := .object [("x", .number 1), ("y", .number 2)] }]

/-- The same point with its coordinates the other way round. -/
def turned : Value := .object [("y", .number 2), ("x", .number 1)]

/-- The batch renames the point twice, and the second name is the one that it has afterwards. -/
theorem get_overwritten_labelled : ∃ s' c,
    (serve { kept := ⟨{}, none⟩ } labelled).kept.store.apply [.set "label" (.string "B"),
      .set "point" turned, .set "label" (.string "C")] = .ok (s', c) ∧
    s'.get "label" = .ok (.string "C") := by
  have happly : ((serve { kept := ⟨{}, none⟩ } labelled).kept.store.apply
      [.set "label" (.string "B"), .set "point" turned,
      .set "label" (.string "C")]).toOption.isSome =
        true := by
    decide +kernel
  have htype : (Dict.get? (serve { kept := ⟨{}, none⟩ } labelled).kept.store.vars "label").map
      (·.decl.type) = some .string := by
    decide +kernel
  obtain ⟨⟨s', c⟩, h⟩ := Option.isSome_iff_exists.1 happly
  have h := toOption_eq_some.1 h
  obtain ⟨v, old, x, hv, hcoerce, -, -, hlast⟩ :=
    (Blank.get_overwritten ⟨rfl, rfl, rfl⟩ labelled h).2
      [.set "label" (.string "B"), .set "point" turned] (.set "label" (.string "C")) [] rfl
      List.not_mem_nil
  rw [show Dict.get? _ "label" = some v from hv, Option.map_some] at htype
  rw [Option.some.inj htype] at hcoerce
  obtain rfl : Value.string "C" = x := Except.ok.inj hcoerce
  exact ⟨s', c, h, hlast.2 Value.eq_of_same_string⟩

/-- A point that is written with its coordinates the other way round keeps them as they were. -/
theorem get_ne_turned : ∃ s' c v,
    (serve { kept := ⟨{}, none⟩ } labelled).kept.store.apply [.set "point" turned] = .ok (s', c) ∧
    VarType.object.coerce "point" turned = .ok turned ∧ s'.get "point" = .ok v ∧
    v.jsonText = "\x7b\"x\":1,\"y\":2\x7d" ∧ v ≠ turned := by
  have happly : (((serve { kept := ⟨{}, none⟩ } labelled).kept.store.apply
      [.set "point" turned]).toOption.bind fun r => (r.1.get "point").toOption.map
        fun v => v.jsonText) = some "\x7b\"x\":1,\"y\":2\x7d" := by
    decide +kernel
  obtain ⟨⟨s', c⟩, h, hget⟩ := Option.bind_eq_some_iff.1 happly
  obtain ⟨v, hv, htext⟩ := Option.map_eq_some_iff.1 hget
  refine ⟨s', c, v, toOption_eq_some.1 h, rfl, toOption_eq_some.1 hv, htext, ?_⟩
  rintro rfl
  exact absurd htext (by decide +kernel)

/-! ## Actions of one write -/

variable {locals : Dict Value} {a : Action}

/-- An action is executed by the batch of its writes. -/
theorem run_execute_batch {ws : List Write} (h : a.writes l.kept.store locals = .ok ws) :
    (execute locals a).run l = match l.kept.store.apply ws with
      | .ok (s, c) => (.ok c.changed, l.after s c.saves c.notices)
      | .error e => (.error (.ofStore e), l) := by
  rw [execute, run_bind, run_store]
  dsimp only
  rw [run_bind, run_result, h]
  dsimp only
  rw [run_adapt, run_apply]
  cases l.kept.store.apply ws with
  | error e => rfl
  | ok r => rfl

theorem run_execute_error {e : ActionError} (h : a.writes l.kept.store locals = .error e) :
    (execute locals a).run l = (.error e, l) := by
  rw [execute, run_bind, run_store]
  dsimp only
  rw [run_bind, run_result, h]

/-- An action with one write of what its variable can hold is executed. -/
theorem exists_execute_set (hl : l.kept.store.Ordered) {name : String} {x c : Value} {v : Variable}
    (hwrites : a.writes l.kept.store locals = .ok [.set name x])
    (hv : Dict.get? l.kept.store.vars name = some v) (hc : v.decl.type.coerce name x = .ok c) :
    ∃ changed l' commit, (execute locals a).run l = (.ok changed, l') ∧
      l.kept.store.apply [.set name x] = .ok (l'.kept.store, commit) ∧
      Dict.get? l'.kept.store.vars name = some { v with value := v.value.overwrite c } := by
  obtain ⟨s', commit, happly, hv'⟩ := hl.exists_set hv hc
  refine ⟨commit.changed, l.after s' commit.saves commit.notices, commit, ?_, happly, hv'⟩
  rw [run_execute_batch hwrites, happly]

/-- What an execution with one write leaves of its variable. -/
theorem exists_of_execute_set (hl : l.kept.store.Ordered) {name : String} {x : Value}
    {changed : List String} {l' : LiveStore}
    (hwrites : a.writes l.kept.store locals = .ok [.set name x])
    (h : (execute locals a).run l = (.ok changed, l')) : ∃ v c,
      Dict.get? l.kept.store.vars name = some v ∧ v.decl.type.coerce name x = .ok c ∧
      l'.kept.store.get name = .ok (v.value.overwrite c) := by
  obtain ⟨v, c, hv, hc⟩ : ∃ v c, Dict.get? l.kept.store.vars name = some v ∧
      v.decl.type.coerce name x = .ok c := by
    rw [run_execute_batch hwrites] at h
    cases happly : l.kept.store.apply [.set name x] with
    | error e => rw [happly] at h; cases h
    | ok r => exact Store.exists_coerce_of_set happly
  obtain ⟨_, l'', _, hrun, -, hv'⟩ := exists_execute_set hl hwrites hv hc
  obtain rfl := (Prod.mk.inj (hrun.symm.trans h)).2
  exact ⟨v, c, hv, hc, by rw [Store.get, hv']⟩

end LiveStore

end Archipelago
