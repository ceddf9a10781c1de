import Archipelago.Proofs.Store.History
import Archipelago.Proofs.Store.Late

/-!
# Values are of their declared types

All that comes into a store is made a value of the type of its variable first: the initial value and
the stored one, and whatever a write offers. So a variable never holds anything else, no matter what
its storage holds and what is done. What is read from the address is never written.
-/

namespace Archipelago

namespace VarType

/-- Whether a value is one of the type. No value is of a type that cannot be written. -/
def admits : VarType → Value → Bool
  | number, .number _ | string, .string _ | boolean, .bool _ | array, .array _ => true
  | object, .object _ | object, .null | object, .undefined => true
  | _, _ => false

/-- What a value is made into is a value of the type. -/
theorem admits_of_coerce {t : VarType} {name : String} {v w : Value}
    (h : t.coerce name v = .ok w) : t.admits w = true := by
  cases t with
  | computed | urlParam => cases h
  | number =>
    cases v with
    | number x => obtain rfl := Except.ok.inj h; rfl
    | string s =>
      unfold coerce at h
      dsimp only at h
      split at h
      · obtain rfl := Except.ok.inj h; rfl
      · cases h
    | _ => cases h
  | string =>
    cases v with
    | array | object => cases h
    | _ => obtain rfl := Except.ok.inj h; rfl
  | boolean =>
    cases v with
    | bool b => obtain rfl := Except.ok.inj h; rfl
    | string s =>
      unfold coerce at h
      dsimp only at h
      split at h
      · obtain rfl := Except.ok.inj h; rfl
      · split at h
        · obtain rfl := Except.ok.inj h; rfl
        · cases h
    | _ => cases h
  | array =>
    cases v with
    | array => obtain rfl := Except.ok.inj h; rfl
    | _ => cases h
  | object =>
    cases v with
    | object | null | undefined => obtain rfl := Except.ok.inj h; rfl
    | _ => cases h

/-- A value of the type is left as it is. -/
theorem coerce_of_admits {t : VarType} {v : Value} (h : t.admits v = true) (name : String) :
    t.coerce name v = .ok v := by
  cases t with
  | computed | urlParam => cases h
  | number | string | boolean | array => cases v <;> first | rfl | cases h
  | object => cases v <;> first | rfl | cases h

end VarType

namespace VariableDecl

/-- What a variable of the declaration may hold where the address has these parameters. A computed
one may hold anything. -/
def Allows (params : Dict String) (d : VariableDecl) (v : Value) : Prop :=
  match d.type with
  | .computed => True
  | .urlParam => v = match Dict.get? params d.paramName with
    | some raw => .string raw
    | none => d.initial
  | t => t.admits v = true

theorem allows_of_admits {params : Dict String} {d : VariableDecl} {v : Value}
    (h : d.type.admits v = true) : d.Allows params v := by
  unfold Allows
  cases htype : d.type with
  | computed => trivial
  | urlParam => rw [htype] at h; cases h
  | number | string | boolean | array | object => rwa [htype] at h

theorem allows_of_computed {params : Dict String} {d : VariableDecl} (h : d.type = .computed)
    (v : Value) : d.Allows params v := by
  unfold Allows
  rw [h]
  trivial

theorem Allows.admits {params : Dict String} {d : VariableDecl} {v : Value} (h : d.Allows params v)
    (hwritable : d.type.isReadOnly = false) : d.type.admits v = true := by
  unfold Allows at h
  cases htype : d.type with
  | computed | urlParam => rw [htype] at hwritable; cases hwritable
  | number | string | boolean | array | object => rwa [htype] at h

end VariableDecl

namespace Store

variable {s : Store}

/-- What is stored for a variable counts only as a value of its type. -/
theorem admits_of_persisted? {load : String → Option String} {d : VariableDecl} {v : Value}
    (h : persisted? load d = some v) : d.type.admits v = true := by
  unfold persisted? at h
  split at h
  · rename_i w hw
    obtain rfl := Option.some.inj h
    obtain ⟨stored, -, hstored⟩ := Option.map_eq_some_iff.1 hw
    exact VarType.admits_of_coerce hstored
  · cases h

/-- Whatever is stored, a variable starts with a value that it may hold. -/
theorem allows_of_startValue {load : String → Option String} {d : VariableDecl} {v : Value}
    (h : s.startValue load d = .ok v) : d.Allows s.params v := by
  have hstart {t : VarType} (htype : d.type = t) (hv : (do
      let initial ← t.coerce d.name d.initial
      .ok (if d.persist then (persisted? load d).getD initial else initial)) = .ok v) :
      d.Allows s.params v := by
    obtain ⟨initial, hinitial, hv⟩ := bind_eq_ok.1 hv
    obtain rfl := Except.ok.inj hv
    refine VariableDecl.allows_of_admits ?_
    split
    · cases hstored : persisted? load d with
      | none => exact htype ▸ VarType.admits_of_coerce hinitial
      | some w => exact admits_of_persisted? hstored
    · exact htype ▸ VarType.admits_of_coerce hinitial
  unfold startValue at h
  cases htype : d.type with
  | computed => exact VariableDecl.allows_of_computed htype v
  | urlParam =>
    rw [htype] at h
    unfold VariableDecl.Allows
    rw [htype]
    exact (Except.ok.inj h).symm
  | number | string | boolean | array | object =>
    rw [htype] at h
    exact hstart htype h

/-! ## Stores -/

/-- Each variable holds a value that it may hold. -/
structure Typed (s : Store) : Prop extends s.Coherent where
  allows : ∀ name v, Dict.get? s.vars name = some v → v.decl.Allows s.params v.value

namespace Typed

theorem setValue (h : s.Typed) {name : String} {x : Value}
    (hx : ∀ v, Dict.get? s.vars name = some v → v.decl.Allows s.params x) :
    (s.setValue name x).Typed where
  toCoherent := h.toCoherent.of_frame (frame_setValue s name x).symm
  allows other v hv := by
    rw [params_eq (frame_setValue s name x)]
    rw [get?_setValue] at hv
    split at hv
    · rename_i heq
      subst heq
      obtain ⟨w, hw, rfl⟩ := Option.map_eq_some_iff.1 hv
      exact hx w hw
    · exact h.allows other v hv

/-- A computed variable may hold whatever comes of its expression. -/
theorem recompute (h : s.Typed) {s' : Store} {name : String} (hs : s.recompute? name = some s') :
    s'.Typed := by
  obtain ⟨v, e, hv, he, rfl⟩ := recompute?_eq_some hs
  refine h.setValue fun w hw => ?_
  obtain rfl := Option.some.inj (hv.symm.trans hw)
  have hparsed := h.parsed name v hv
  rw [he] at hparsed
  exact VariableDecl.allows_of_computed (parseComputed_eq_some hparsed).1 _

theorem refresh {b : Batch} (h : b.store.Typed) (name : String) : (b.refresh name).store.Typed := by
  unfold Batch.refresh
  split
  · split
    · split
      · rename_i hs
        exact h.recompute hs
      · exact h
    · exact h
  · exact h

theorem write {b : Batch} (h : b.store.Typed) {name : String} {x : Value}
    (hx : ∀ v, Dict.get? b.store.vars name = some v → v.decl.Allows b.store.params x) :
    (b.write name x).store.Typed := by
  unfold Batch.write
  split
  · split
    · exact h
    · exact h.setValue hx
  · exact h

/-- What is staged for a variable is a value of its type. -/
theorem allows_of_stage {w : Write} {p : String × Value} (hp : s.stage w = .ok p) {v : Variable}
    (hv : Dict.get? s.vars p.1 = some v) : v.decl.Allows s.params p.2 := by
  obtain ⟨v', hv', -, hname, hcoerce⟩ := stage_eq_ok hp
  rw [hname] at hv
  obtain rfl := Option.some.inj (hv.symm.trans hv')
  exact VariableDecl.allows_of_admits (VarType.admits_of_coerce hcoerce)

theorem apply (h : s.Typed) {s' : Store} {ws : List Write} {c : Commit}
    (ha : s.apply ws = .ok (s', c)) : s'.Typed := by
  obtain ⟨staged, hstaged, heq, -⟩ := apply_eq_ok ha
  have hallows : ∀ p ∈ staged, ∀ v, Dict.get? s.vars p.1 = some v → v.decl.Allows s.params p.2 :=
    fun p hp v hv => by
      obtain ⟨w, -, hw⟩ := exists_stage hstaged p hp
      exact allows_of_stage hw hv
  have hwritten : Batch.Tracks s (staged.foldl (fun b w => b.write w.1 w.2) ⟨s, []⟩) ∧
      (staged.foldl (fun b w => b.write w.1 w.2) (⟨s, []⟩ : Batch)).store.Typed := by
    refine List.foldlRecOn staged _ (motive := fun b : Batch => Batch.Tracks s b ∧ b.store.Typed)
      ⟨Batch.Tracks.start s, h⟩ fun b hb p hp => ⟨hb.1.write p.1 p.2, hb.2.write fun v hv => ?_⟩
    obtain ⟨v', hv', hdecl, -⟩ := get?_of_frame hb.1.frame hv
    rw [hdecl, params_eq hb.1.frame]
    exact hallows p hp v' hv'
  have hsettled := List.foldlRecOn s.computedOrder Batch.refresh
    (motive := fun b : Batch => b.store.Typed) hwritten.2 fun b hb name _ => hb.refresh name
  rwa [heq] at hsettled

theorem declare (h : s.Typed) {load : String → Option String} {s' : Store} {d : VariableDecl}
    (hd : s.declare load d = .ok s') : s'.Typed := by
  obtain ⟨hn, expr, value, order, hp, hvalue, ho, rfl⟩ := declare_eq_ok h.toCoherent hd
  have hextended : (s.extend ⟨d, value, expr⟩ order).Typed := by
    refine ⟨h.toCoherent.extend hn hp ho, fun name v hv => ?_⟩
    by_cases he : d.name = name
    · subst he
      obtain rfl :=
        Option.some.inj ((get?_extend_self order (v := ⟨d, value, expr⟩) hn).symm.trans hv)
      exact allows_of_startValue hvalue
    · exact h.allows name v ((get?_extend_of_ne he).symm.trans hv)
  unfold recomputed
  cases hs : (s.extend ⟨d, value, expr⟩ order).recompute? d.name with
  | none => exact hextended
  | some t => exact hextended.recompute hs

end Typed

theorem Coherent.params_declare {load : String → Option String} {s' : Store} {d : VariableDecl}
    (hs : s.Coherent) (hd : s.declare load d = .ok s') : s'.params = s.params := by
  obtain ⟨-, expr, value, order, -, -, -, rfl⟩ := declare_eq_ok hs hd
  exact (params_eq (frame_recomputed (s.extend ⟨d, value, expr⟩ order) d.name) : _)

end Store

/-! ## Whatever is done -/

namespace LiveStore

/-- The stores that come of some declarations and of any deeds, over a storage that others may fill
with anything at any time. -/
inductive Reachable (params : Dict String) : List VariableDecl → LiveStore → Prop where
  | blank {l : LiveStore} : l.kept.store.vars = [] → l.kept.store.computedOrder = [] →
      l.kept.store.params = params → Reachable params [] l
  | declare {ds : List VariableDecl} {l : LiveStore} {d : VariableDecl} : Reachable params ds l →
      ((LiveStore.declare d).run l).1 = .ok () →
        Reachable params (ds ++ [d]) ((LiveStore.declare d).run l).2
  | refuse {ds : List VariableDecl} {l : LiveStore} {d : VariableDecl} {e : StoreError} :
      Reachable params ds l → ((LiveStore.declare d).run l).1 = .error e →
        Reachable params ds ((LiveStore.declare d).run l).2
  | deed {ds : List VariableDecl} {l : LiveStore} (deed : Deed) : Reachable params ds l →
      Reachable params ds (deed.perform l)
  | restock {ds : List VariableDecl} {l : LiveStore} (storage : Option Storage) :
      Reachable params ds l → Reachable params ds { l with kept := { l.kept with storage } }

namespace Reachable

variable {params : Dict String} {ds : List VariableDecl} {l : LiveStore}

/-- Of the stores that come of some declarations: the variables are the declared ones, each of them
holds a value that it may hold, and the address is the same. -/
theorem invariant (h : Reachable params ds l) :
    l.kept.store.DeclaredAs ds ∧ l.kept.store.Typed ∧ l.kept.store.params = params := by
  induction h with
  | @blank l hvars horder hparams =>
    have hblank := Store.DeclaredAs.blank hvars horder
    exact ⟨hblank, ⟨hblank.coherent, fun name v hv => by rw [hvars] at hv; cases hv⟩, hparams⟩
  | @declare ds l d _ hok ih =>
    obtain ⟨hdeclared, htyped, hparams⟩ := ih
    rw [run_declare] at hok ⊢
    cases hd : l.kept.store.declare l.kept.load d with
    | error e => rw [hd] at hok; cases hok
    | ok s =>
      exact ⟨(hdeclared.declare hd).1, htyped.declare hd,
        (hdeclared.coherent.params_declare hd).trans hparams⟩
  | @refuse ds l d e _ herror ih =>
    rw [run_declare] at herror ⊢
    cases hd : l.kept.store.declare l.kept.load d with
    | error e => exact ih
    | ok s => rw [hd] at herror; cases herror
  | @deed ds l deed _ ih =>
    refine deed.keeps (P := fun l => l.kept.store.DeclaredAs ds ∧ l.kept.store.Typed ∧
      l.kept.store.params = params) (fun l ws s c h hbatch => ?_) ih
    have hframe := (Store.apply_tracks hbatch).frame
    exact ⟨h.1.of_frame hframe.symm, h.2.1.apply hbatch, (Store.params_eq hframe).trans h.2.2⟩
  | restock storage _ ih => exact ih

/-- Whatever has been stored and whatever has been done, the declared variables and no others are
there, and each of them has a value that its declaration and the address allow. -/
theorem get_allowed (h : Reachable params ds l) : l.kept.store.names = ds.map (·.name) ∧
    ∀ d ∈ ds, ∃ v, l.kept.store.get d.name = .ok v ∧ d.Allows params v := by
  obtain ⟨hdeclared, htyped, hparams⟩ := h.invariant
  refine ⟨hdeclared.names, fun d hd => ?_⟩
  obtain ⟨v, hv, rfl⟩ := hdeclared.get?_of_mem hd
  refine ⟨v.value, ?_, hparams ▸ htyped.allows _ v hv⟩
  rw [Store.get, hv]

end Reachable

/-- What a reader has counted and marked, over a storage that holds neither a number nor a list. -/
def shelf : LiveStore where
  kept :=
    { store := { params := [("page", "7")], scope := "s" }
      storage := some
        (.memory ⟨[(("s", "count"), "\"many\""), (("s", "marks"), "[1")]⟩ false false) }

/-- A number that is given as a text with blanks. -/
def count : VariableDecl :=
  { name := "count", type := .number, initial := .string " 1 ", persist := true }

/-- A list that is kept. -/
def marks : VariableDecl :=
  { name := "marks", type := .array, initial := .array [], persist := true }

/-- A parameter of the address with a number to fall back on. -/
def page : VariableDecl := { name := "page", type := .urlParam, initial := .number 1 }

/-- The third step fails: what is read from the address is not written. -/
def reading : Deed := .run [] [.increment "count" (.value (.string "41")),
  .push "marks" (.expr "$vars.page"), .sequence [.set "page" (.value (.number 8)), .reset "count"]]

/-- The store that stands after the declarations. -/
def shelfDeclared : LiveStore :=
  ((LiveStore.declare page).run
    ((LiveStore.declare marks).run ((LiveStore.declare count).run shelf).2).2).2

/-- What is stored is of no use, and what comes of a firing that fails is of the right types. -/
theorem get_allowed_reading :
    Reachable [("page", "7")] [count, marks, page] (reading.perform shelfDeclared) ∧
      (reading.perform shelfDeclared).kept.store.vars.map (·.2.value.jsonText) =
        ["42", "[\"7\"]", "\"7\""] ∧
      (reading.perform shelfDeclared).kept.store.names = ["count", "marks", "page"] ∧
      ∀ d ∈ [count, marks, page], ∃ v,
        (reading.perform shelfDeclared).kept.store.get d.name = .ok v ∧
          d.Allows [("page", "7")] v := by
  have hblank : Reachable [("page", "7")] [] shelf := .blank rfl rfl rfl
  have hcount : Reachable [("page", "7")] ([] ++ [count]) _ := .declare hblank (by decide +kernel)
  have hmarks : Reachable [("page", "7")] ([count] ++ [marks]) _ :=
    .declare hcount (by decide +kernel)
  have hpage : Reachable [("page", "7")] ([count, marks] ++ [page]) shelfDeclared :=
    .declare hmarks (by decide +kernel)
  have hshelf : Reachable [("page", "7")] [count, marks, page] (reading.perform shelfDeclared) :=
    .deed reading hpage
  exact ⟨hshelf, by decide +kernel, hshelf.get_allowed⟩

end LiveStore

end Archipelago
