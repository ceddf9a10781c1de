import Archipelago.Proofs.Basics
import Archipelago.Proofs.Expr.Agreement
import Archipelago.Store

/-!
# What a batch leaves alone

A batch changes values and nothing else of a store, and it changes only the values of names that
it reports.
-/

namespace Archipelago

namespace Variable

/-- A variable without its value. -/
def bare (v : Variable) : Variable := { v with value := .undefined }

@[simp] theorem bare_decl (v : Variable) : v.bare.decl = v.decl := rfl
@[simp] theorem bare_expr (v : Variable) : v.bare.expr = v.expr := rfl
@[simp] theorem bare_dependencies (v : Variable) : v.bare.dependencies = v.dependencies := rfl
@[simp] theorem bare_with_value (v : Variable) (x : Value) : { v with value := x }.bare = v.bare :=
  rfl

end Variable

/-- The value that a write offers to its variable. -/
def Write.offered (w : Write) (d : VariableDecl) : Value :=
  match w with
  | .set _ value => value
  | .reset _ => d.initial

namespace Store

/-- A store without its values: all that no write changes. -/
def frame (s : Store) : Store := { s with vars := Dict.mapValues Variable.bare s.vars }

/-- A frame has the same variables without their values. -/
theorem get?_frame (s : Store) (name : String) :
    Dict.get? s.frame.vars name = (Dict.get? s.vars name).map Variable.bare :=
  Dict.get?_mapValues _ _ _

@[simp] theorem names_frame (s : Store) : s.frame.names = s.names := Dict.keys_mapValues _ _

section Frame

variable {s t : Store} (h : s.frame = t.frame)
include h

theorem names_eq : s.names = t.names := by
  rw [← names_frame, h, names_frame]

theorem limits_eq : s.limits = t.limits := (congrArg Store.limits h :)
theorem resident_eq : s.resident = t.resident := (congrArg Store.resident h :)
theorem params_eq : s.params = t.params := (congrArg Store.params h :)
theorem scope_eq : s.scope = t.scope := (congrArg Store.scope h :)
theorem computedOrder_eq : s.computedOrder = t.computedOrder := (congrArg Store.computedOrder h :)
theorem subscriptions_eq : s.subscriptions = t.subscriptions := (congrArg Store.subscriptions h :)

/-- A variable of one store is the same but for its value in the other. -/
theorem get?_of_frame {name : String} {v : Variable} (hv : Dict.get? s.vars name = some v) :
    ∃ w, Dict.get? t.vars name = some w ∧ v.decl = w.decl ∧ v.expr = w.expr := by
  have hb : (Dict.get? t.vars name).map Variable.bare = some v.bare := by
    rw [← get?_frame, ← h, get?_frame, hv, Option.map_some]
  obtain ⟨w, hw, he⟩ := Option.map_eq_some_iff.1 hb
  exact ⟨w, hw, (congrArg Variable.decl he.symm :), (congrArg Variable.expr he.symm :)⟩

end Frame

/-! ## One value -/

/-- A new value is found at its name only. -/
theorem get?_setValue (s : Store) (name other : String) (x : Value) :
    Dict.get? (s.setValue name x).vars other =
      if name = other then (Dict.get? s.vars other).map ({ · with value := x })
      else Dict.get? s.vars other := by
  unfold setValue
  cases h : Dict.get? s.vars name with
  | none =>
    by_cases ho : name = other
    · subst ho; simp [h]
    · simp [ho]
  | some v =>
    by_cases ho : name = other
    · subst ho; simp [h]
    · simp [Dict.get?_insert, ho]

theorem get?_setValue_of_ne (s : Store) {name other : String} (x : Value) (h : name ≠ other) :
    Dict.get? (s.setValue name x).vars other = Dict.get? s.vars other := by
  rw [get?_setValue, if_neg h]

theorem get?_setValue_self {s : Store} {name : String} {v : Variable}
    (h : Dict.get? s.vars name = some v) (x : Value) :
    Dict.get? (s.setValue name x).vars name = some { v with value := x } := by
  rw [get?_setValue, if_pos rfl, h, Option.map_some]

/-- A value is no part of the frame. -/
@[simp] theorem frame_setValue (s : Store) (name : String) (x : Value) :
    (s.setValue name x).frame = s.frame := by
  unfold setValue
  cases h : Dict.get? s.vars name with
  | none => rfl
  | some v =>
    have hf : Dict.get? (Dict.mapValues Variable.bare s.vars) name = some v.bare := by
      rw [Dict.get?_mapValues, h, Option.map_some]
    simp only [frame, Dict.mapValues_insert, Variable.bare_with_value, Dict.insert_of_get? hf]

/-- A recomputation sets the value of its variable, and only if it differs. -/
theorem recompute?_eq_some {s s' : Store} {name : String} (h : s.recompute? name = some s') :
    ∃ v e, Dict.get? s.vars name = some v ∧ v.expr = some e ∧
      s' = s.setValue name (s.computedValue e) := by
  unfold recompute? at h
  split at h
  · rename_i decl old e hv
    dsimp only at h
    split at h
    · simp at h
    · exact ⟨_, e, hv, rfl, (Option.some.inj h).symm⟩
  · simp at h

/-- A variable that is not evaluated anew has the value of its expression. -/
theorem recompute?_eq_none {s : Store} {name : String} {v : Variable} {e : Expr}
    (h : s.recompute? name = none) (hv : Dict.get? s.vars name = some v) (he : v.expr = some e) :
    v.value.same (s.computedValue e) = true := by
  obtain ⟨decl, old, expr⟩ := v
  subst he
  simpa [recompute?, hv] using h

/-! ## A batch -/

namespace Batch

/-- A batch on the way from a store: of each name that is not among the changed ones, the variable
is the very same. -/
structure Tracks (s : Store) (b : Batch) : Prop where
  frame : b.store.frame = s.frame
  kept : ∀ name, name ∉ b.changed → Dict.get? b.store.vars name = Dict.get? s.vars name

variable {s : Store} {b : Batch}

theorem Tracks.start (s : Store) : Tracks s ⟨s, []⟩ := ⟨rfl, fun _ _ => rfl⟩

/-- A value is set and its name reported. -/
theorem Tracks.setValue (h : Tracks s b) (name : String) (x : Value) :
    Tracks s ⟨b.store.setValue name x, addNew b.changed name⟩ where
  frame := by rw [frame_setValue, h.frame]
  kept other ho := by
    have hne : name ≠ other := fun he => ho (mem_addNew.2 (.inr he.symm))
    rw [get?_setValue_of_ne _ _ hne]
    exact h.kept other fun hm => ho (mem_addNew.2 (.inl hm))

/-- A write is tracked. -/
theorem Tracks.write (h : Tracks s b) (name : String) (x : Value) : Tracks s (b.write name x) := by
  unfold Batch.write
  split
  · split
    · exact h
    · exact h.setValue name x
  · exact h

/-- An evaluation is tracked. -/
theorem Tracks.refresh (h : Tracks s b) (name : String) : Tracks s (b.refresh name) := by
  unfold Batch.refresh
  split
  · split
    · split
      · rename_i s' hs
        obtain ⟨_, e, _, _, rfl⟩ := recompute?_eq_some hs
        exact h.setValue name _
      · exact h
    · exact h
  · exact h

theorem Tracks.writes (h : Tracks s b) (ws : List (String × Value)) :
    Tracks s (ws.foldl (fun b w => b.write w.1 w.2) b) := by
  induction ws generalizing b with
  | nil => exact h
  | cons w ws ih => exact ih (h.write w.1 w.2)

theorem Tracks.refreshes (h : Tracks s b) (names : List String) :
    Tracks s (names.foldl Batch.refresh b) := by
  induction names generalizing b with
  | nil => exact h
  | cons name names ih => exact ih (h.refresh name)

end Batch

/-- A write is staged for a variable that can be written, with the value as one of its type. -/
theorem stage_eq_ok {s : Store} {w : Write} {staged : String × Value} (h : s.stage w = .ok staged) :
    ∃ v, Dict.get? s.vars w.name = some v ∧ v.decl.type.isReadOnly = false ∧ staged.1 = w.name ∧
      v.decl.type.coerce w.name (w.offered v.decl) = .ok staged.2 := by
  unfold stage at h
  split at h
  · simp at h
  · rename_i v hv
    split at h
    · simp at h
    · rename_i hro
      refine ⟨v, hv, by simpa using hro, ?_⟩
      cases w with
      | set name value =>
        obtain ⟨x, hx, he⟩ := bind_eq_ok.1 h
        obtain rfl := Except.ok.inj he
        exact ⟨rfl, hx⟩
      | reset name =>
        obtain ⟨x, hx, he⟩ := bind_eq_ok.1 h
        obtain rfl := Except.ok.inj he
        exact ⟨rfl, hx⟩

/-- The writes are staged one by one. -/
theorem forall₂_stage {s : Store} {ws : List Write} {staged : List (String × Value)}
    (h : s.stageAll ws = .ok staged) : List.Forall₂ (fun w p => s.stage w = .ok p) ws staged := by
  induction ws generalizing staged with
  | nil =>
    obtain rfl : [] = staged := Except.ok.inj h
    exact .nil
  | cons w ws ih =>
    obtain ⟨first, hfirst, h⟩ := bind_eq_ok.1 h
    obtain ⟨more, hmore, h⟩ := bind_eq_ok.1 h
    obtain rfl : first :: more = staged := Except.ok.inj h
    exact .cons hfirst (ih hmore)

/-- What is staged comes from one of the writes. -/
theorem exists_stage {s : Store} {ws : List Write} {staged : List (String × Value)}
    (h : s.stageAll ws = .ok staged) : ∀ p ∈ staged, ∃ w ∈ ws, s.stage w = .ok p :=
  exists_of_forall₂ (forall₂_stage h).flip

/-- What is staged goes by the names of the writes. -/
theorem names_stageAll {s : Store} {ws : List Write} {staged : List (String × Value)}
    (h : s.stageAll ws = .ok staged) : staged.map (·.1) = ws.map Write.name := by
  have hnames : List.Forall₂ (· = ·) (staged.map (·.1)) (ws.map Write.name) := by
    rw [List.forall₂_map_left_iff, List.forall₂_map_right_iff]
    refine (forall₂_stage h).flip.imp fun p w hstage => ?_
    obtain ⟨-, -, -, hname, -⟩ := stage_eq_ok hstage
    exact hname
  rwa [List.forall₂_eq_eq_eq] at hnames

/-- What a successful batch is made of. -/
theorem apply_eq_ok {s s' : Store} {ws : List Write} {c : Commit} (h : s.apply ws = .ok (s', c)) :
    ∃ staged, s.stageAll ws = .ok staged ∧
      s.computedOrder.foldl Batch.refresh
        (staged.foldl (fun b w => b.write w.1 w.2) ⟨s, []⟩) = ⟨s', c.changed⟩ ∧
      c.notices = s'.notices c.changed := by
  obtain ⟨staged, hs, he⟩ := bind_eq_ok.1 h
  obtain ⟨rfl, rfl⟩ := Prod.mk.inj (Except.ok.inj he)
  exact ⟨staged, hs, rfl, rfl⟩

/-- A batch changes no other variables than those that it reports. -/
theorem apply_tracks {s s' : Store} {ws : List Write} {c : Commit} (h : s.apply ws = .ok (s', c)) :
    Batch.Tracks s ⟨s', c.changed⟩ := by
  obtain ⟨staged, -, he, -⟩ := apply_eq_ok h
  rw [← he]
  exact ((Batch.Tracks.start s).writes staged).refreshes s.computedOrder

end Store

end Archipelago
