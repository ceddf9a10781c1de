import Archipelago.Proofs.Store.Rebuild
import Archipelago.Proofs.Store.Saved

/-!
# Values that outlive their store

What is kept of a store is enough to build another one with the same persisted values. A value that
has been written is read from its text, and one that has never been written is the initial one
again.
-/

namespace Archipelago

open Decimal (integer? isFinite isFinite_of_integer?)

namespace Value

/-! ## Equal values -/

mutual

/-- Equality with numbers as numbers. Objects have the same names in the same order. -/
def equals : Value → Value → Bool
  | undefined, undefined => true
  | null, null => true
  | bool a, bool b => a == b
  | number x, number y => x == y
  | string s, string t => s == t
  | array vs, array ws => equalsItems vs ws
  | object fs, object gs => equalsFields fs gs
  | _, _ => false

def equalsItems : List Value → List Value → Bool
  | [], [] => true
  | v :: vs, w :: ws => equals v w && equalsItems vs ws
  | _, _ => false

def equalsFields : List (String × Value) → List (String × Value) → Bool
  | [], [] => true
  | (k, v) :: fs, (k', w) :: gs => k == k' && equals v w && equalsFields fs gs
  | _, _ => false

end

section

variable {g : Float → Float}

mutual

theorem equals_mapNumbers : (v : Value) → (∀ x ∈ v.numbers, (g x == x) = true) →
    (v.mapNumbers g).equals v = true
  | undefined, _ | null, _ => rfl
  | bool b, _ => beq_self_eq_true b
  | string s, _ => beq_self_eq_true s
  | number x, h => h x (List.mem_singleton_self x)
  | array items, h => equalsItems_mapItems items h
  | object fields, h => equalsFields_mapFields fields h

theorem equalsItems_mapItems : (vs : List Value) → (∀ x ∈ numbersItems vs, (g x == x) = true) →
    equalsItems (mapItems g vs) vs = true
  | [], _ => rfl
  | v :: vs, h => by
    obtain ⟨hv, hvs⟩ := List.forall_mem_append.1 h
    rw [mapItems, equalsItems, equals_mapNumbers v hv, equalsItems_mapItems vs hvs]
    rfl

theorem equalsFields_mapFields : (fs : List (String × Value)) →
    (∀ x ∈ numbersFields fs, (g x == x) = true) → equalsFields (mapFields g fs) fs = true
  | [], _ => rfl
  | (k, v) :: fs, h => by
    obtain ⟨hv, hfs⟩ := List.forall_mem_append.1 h
    rw [mapFields, equalsFields, equals_mapNumbers v hv, equalsFields_mapFields fs hfs,
      beq_self_eq_true]
    rfl

end

end

mutual

theorem mapNumbers_id : (v : Value) → v.mapNumbers id = v
  | undefined | null | bool _ | number _ | string _ => rfl
  | array items => congrArg array (mapItems_id items)
  | object fields => congrArg object (mapFields_id fields)

theorem mapItems_id : (vs : List Value) → mapItems id vs = vs
  | [] => rfl
  | v :: vs => congrArg₂ List.cons (mapNumbers_id v) (mapItems_id vs)

theorem mapFields_id : (fs : List (String × Value)) → mapFields id fs = fs
  | [] => rfl
  | (k, v) :: fs => congrArg₂ (fun v fs => (k, v) :: fs) (mapNumbers_id v) (mapFields_id fs)

end

/-- Other numbers do not change the kind of a value. -/
theorem admits_mapNumbers {t : VarType} {v : Value} (h : t.admits v = true) (g : Float → Float) :
    t.admits (v.mapNumbers g) = true := by
  cases v with
  | undefined | null | bool | string => exact h
  | number x => cases t <;> first | rfl | cases h
  | array items => cases t <;> first | rfl | cases h
  | object fields => cases t <;> first | rfl | cases h

/-! ## What is read of a text -/

/-- What a number is read as: a number again, or null if it has no end. -/
theorem parse?_number (x : Float) : parse? (number x).jsonText =
    some null ∧ isFinite x = false ∨
      (∃ y, parse? (number x).jsonText = some (number y)) ∧ isFinite x = true := by
  rw [parse?_jsonText, toJson]
  obtain ⟨n, hn, -, hjson⟩ | ⟨hinfinite, hjson⟩ | ⟨hfinite, hjson, y, hread⟩ :=
    Json.ofNumber_cases x
  · rw [hjson]
    exact .inr ⟨⟨_, rfl⟩, isFinite_of_integer? hn⟩
  · rw [hjson]
    exact .inl ⟨rfl, hinfinite⟩
  · rw [hjson, Json.readWithin, Json.rereadFloat, hread]
    exact .inr ⟨⟨y, rfl⟩, hfinite⟩

/-- What is read of a value of some type is taken for the type, unless it was a number without an
end. -/
theorem coerce_of_parse? {t : VarType} {v w : Value} (h : t.admits v = true)
    (hw : parse? v.jsonText = some w) (name : String) :
    (∃ u, t.coerce name w = .ok u) ↔ ∀ x, v = number x → isFinite x = true := by
  have hother (hv : ∀ x, v ≠ number x) (hadmits : t.admits w = true) :
      (∃ u, t.coerce name w = .ok u) ↔ ∀ x, v = number x → isFinite x = true :=
    iff_of_true ⟨w, VarType.coerce_of_admits hadmits name⟩ fun x hx => absurd hx (hv x)
  cases v with
  | number x =>
    obtain rfl : t = .number := by cases t <;> first | rfl | cases h
    obtain ⟨hnull, hinfinite⟩ | ⟨⟨y, hy⟩, hfinite⟩ := parse?_number x
    · obtain rfl := Option.some.inj (hw.symm.trans hnull)
      refine iff_of_false ?_ fun hfinite => ?_
      · rintro ⟨u, hu⟩
        cases hu
      · rw [hfinite x rfl] at hinfinite
        cases hinfinite
    · obtain rfl := Option.some.inj (hw.symm.trans hy)
      refine iff_of_true ⟨_, rfl⟩ ?_
      rintro _ ⟨⟩
      exact hfinite
  | undefined | null =>
    rw [parse?_jsonText] at hw
    obtain rfl := Option.some.inj hw
    refine hother (fun x => nofun) ?_
    cases t <;> first | rfl | cases h
  | bool | string =>
    rw [parse?_jsonText] at hw
    obtain rfl := Option.some.inj hw
    exact hother (fun x => nofun) h
  | array items =>
    rw [parse?_jsonText] at hw
    obtain ⟨vs, -, rfl⟩ := Option.map_eq_some_iff.1 hw
    refine hother (fun x => nofun) ?_
    cases t <;> first | rfl | cases h
  | object fields =>
    rw [parse?_jsonText] at hw
    obtain ⟨vs, -, rfl⟩ := Option.map_eq_some_iff.1 hw
    refine hother (fun x => nofun) ?_
    cases t <;> first | rfl | cases h

end Value

namespace Store

/-- A value of its type that is read from its text is what a variable starts with. -/
theorem persisted?_of_load {load : String → Option String} {d : VariableDecl} {v w : Value}
    (hload : load d.name = some v.jsonText) (hread : Value.parse? v.jsonText = some w)
    (hw : d.type.admits w = true) : persisted? load d = some w := by
  rw [persisted?, hload, Option.bind_some, hread, Option.map_some, VarType.coerce_of_admits hw]

/-- The text of a value of the type of a variable is accepted just if the value does not nest too
deep and is no number without an end. -/
theorem isSome_persisted?_iff {load : String → Option String} {d : VariableDecl} {v : Value}
    (hload : load d.name = some v.jsonText) (h : d.type.admits v = true) :
    (persisted? load d).isSome ↔
      v.depth ≤ 127 ∧ ∀ x, v = .number x → isFinite x = true := by
  rw [persisted?, hload, Option.bind_some, ← Value.isSome_parse?_jsonText]
  cases hread : Value.parse? v.jsonText with
  | none => simp
  | some w =>
    rw [← Value.coerce_of_parse? h hread d.name, Option.map_some]
    cases d.type.coerce d.name w with
    | error e => simp
    | ok u => simp

/-- What a batch writes can be written. -/
theorem isReadOnly_of_apply {s s' : Store} {ws : List Write} {c : Commit}
    (h : s.apply ws = .ok (s', c)) {name : String} (hname : name ∈ ws.map Write.name) {v : Variable}
    (hv : Dict.get? s'.vars name = some v) : v.decl.type.isReadOnly = false := by
  obtain ⟨staged, hstaged, -⟩ := apply_eq_ok h
  rw [← names_stageAll hstaged] at hname
  obtain ⟨⟨other, x⟩, hmem, rfl⟩ := List.mem_map.1 hname
  obtain ⟨w, hw, hdecl, -⟩ := get?_of_frame (apply_tracks h).frame hv
  rw [hdecl]
  exact isReadOnly_of_stageAll hstaged hmem hw

end Store

namespace LiveStore

section

variable {l : LiveStore} {storage : Storage}

/-! ## The first store -/

/-- Over a storage that is empty, variables get their initial values. -/
theorem New.stocked (h : l.New) (hstorage : l.kept.storage = some storage) (hworks : storage.Works)
    (hempty : ∀ name, l.kept.load name = none) : l.Stocked where
  coherent := h.coherent
  works := ⟨storage, hstorage, hworks⟩
  kept name v hv hpersist hwritable := by
    obtain ⟨initial, hinitial, hvalue⟩ := h.seeded name v hv hwritable
    have hnone : Store.persisted? l.kept.load v.decl = none := by
      rw [Store.persisted?, hempty]
      rfl
    rw [hnone] at hvalue
    refine .inr ⟨hempty name, hinitial.trans (congrArg Except.ok ?_)⟩
    rw [hvalue, if_pos hpersist]
    rfl

theorem Reachable.declareEach {params : Dict String} {before : List VariableDecl}
    (h : Reachable params before l) (ds : List VariableDecl) :
    ∃ after, Reachable params after (l.declareEach ds) := by
  induction ds generalizing l before with
  | nil => exact ⟨before, h⟩
  | cons d ds ih =>
    cases hresult : ((LiveStore.declare d).run l).1 with
    | ok u => exact ih (h.declare hresult)
    | error e => exact ih (h.refuse hresult)

theorem Reachable.performAll {params : Dict String} {ds : List VariableDecl}
    (h : Reachable params ds l) (deeds : List Deed) : Reachable params ds (l.performAll deeds) := by
  induction deeds generalizing l with
  | nil => exact h
  | cons deed deeds ih => exact ih (h.deed deed)

/-! ## The second store -/

/-- That a value is one JSON can hold: nothing in it is undefined (its objects are maps, where no
name stands twice), it does not nest too deep, and its numbers are whole ones that are written
without a point. -/
structure Lasting (v : Value) : Prop where
  plain : v.Plain
  depth_le : v.depth ≤ 127
  whole : ∀ x ∈ v.numbers, ∃ n, integer? x = some n ∧ n.natAbs < 9000000000000000

/-- What starts with what is kept of a variable has an equal value. -/
theorem Stocked.equals_of_seeded (hl : l.Stocked) (htyped : l.kept.store.Typed) {name : String}
    {v w : Variable} (hv : Dict.get? l.kept.store.vars name = some v)
    (hpersist : v.decl.persist = true) (hwritable : v.decl.type.isReadOnly = false)
    (hlasting : Lasting v.value) (hdecl : w.decl = v.decl)
    (hw : Store.Seeded l.kept.load w) : w.value.equals v.value = true := by
  obtain ⟨hplain, hdepth, hwhole⟩ := hlasting
  obtain ⟨initial, hinitial, hvalue⟩ := hw
  have hname := hl.coherent.named name v hv
  rw [hdecl, if_pos hpersist] at hvalue
  rw [hdecl] at hinitial
  obtain hload | ⟨hload, hsame⟩ := hl.kept name v hv hpersist hwritable
  · have hread := Value.parse?_jsonText_of_whole hplain hdepth hwhole
    have hadmits := Value.admits_mapNumbers ((htyped.allows name v hv).admits hwritable)
      Value.settled
    rw [hvalue, Store.persisted?_of_load (hname ▸ hload) hread hadmits]
    refine Value.equals_mapNumbers v.value fun x hx => ?_
    obtain ⟨n, hn, hlt⟩ := hwhole x hx
    exact Value.settled_beq hn hlt
  · have hnone : Store.persisted? l.kept.load v.decl = none := by
      rw [Store.persisted?, hname, hload]
      rfl
    rw [hnone] at hvalue
    have heq : w.value = v.value.mapNumbers id := by
      rw [Value.mapNumbers_id, hvalue]
      exact Except.ok.inj (hinitial.symm.trans hsame)
    rw [heq]
    refine Value.equals_mapNumbers v.value fun x hx => ?_
    obtain ⟨n, hn, -⟩ := hwhole x hx
    exact Decimal.beq_self_of_integer? hn

/-- A store without variables under the scope and over the storage of another one. -/
def anew (l : LiveStore) (params : Dict String) (resident : Value) : LiveStore :=
  { kept :=
      { store := { params, resident, scope := l.kept.store.scope, limits := l.kept.store.limits }
        storage := l.kept.storage } }

/-- Whatever is done to variables that were new over an empty storage: in a second store, with the
same declarations over the storage as it is then, each persisted variable has the same value, as
long as JSON can hold it. -/
theorem get_declareEach_anew (hvars : l.kept.store.vars = [])
    (horder : l.kept.store.computedOrder = []) (hstorage : l.kept.storage = some storage)
    (hworks : storage.Works) (hempty : ∀ name, l.kept.load name = none) (ds : List VariableDecl)
    (deeds : List Deed) (params : Dict String) (resident : Value) {name : String} {v : Variable}
    (hv : Dict.get? ((l.declareEach ds).performAll deeds).kept.store.vars name = some v)
    (hpersist : v.decl.persist = true) (hwritable : v.decl.type.isReadOnly = false)
    (hlasting : Lasting v.value) :
    ∃ w,
      ((((l.declareEach ds).performAll deeds).anew params resident).declareEach ds).kept.store.get
        name = .ok w ∧ w.equals v.value = true := by
  have hblank := New.blank hvars horder
  have hbase := SameBase.declareEach hblank.coherent ds
  have hstocked := ((hblank.declareEach ds).stocked (hbase.storage.trans hstorage) hworks
    fun name => hbase.load_eq ▸ hempty name).performAll deeds
  have hframe := (l.declareEach ds).frame_performAll deeds
  obtain ⟨after, hreach⟩ := (Reachable.blank hvars horder rfl).declareEach ds
  obtain ⟨-, htyped, -⟩ := (hreach.performAll deeds).invariant
  generalize (l.declareEach ds).performAll deeds = first at hv hstocked hframe htyped ⊢
  -- the second store has the same variables, and each holds what is loaded for it
  have hanew : (first.anew params resident).New := .blank rfl rfl
  have hlimits : l.kept.store.limits = (first.anew params resident).kept.store.limits :=
    hbase.limits.symm.trans (Store.limits_eq hframe).symm
  have halike := alike_declareEach ⟨congrArg (Dict.mapValues Variable.bare) hvars, hlimits⟩ hblank
    hanew ds
  have hfirst : first.kept.store.Alike ((first.anew params resident).declareEach ds).kept.store :=
    ⟨(congrArg Store.vars hframe).trans halike.vars, (Store.limits_eq hframe).trans halike.limits⟩
  obtain ⟨w, hw, hdecl⟩ := hfirst.get? hv
  have hseeded := (hanew.declareEach ds).seeded name w hw (hdecl ▸ hwritable)
  rw [(SameBase.declareEach hanew.coherent ds).load_eq] at hseeded
  refine ⟨w.value, by rw [Store.get, hw], ?_⟩
  exact hstocked.equals_of_seeded htyped hv hpersist hwritable hlasting hdecl hseeded

/-- Over a new memory. -/
def desk : LiveStore :=
  { kept := { store := { scope := "s" }, storage := some (.memory {} false false) } }

/-- A list that is kept. -/
def files : VariableDecl :=
  { name := "files", type := .array, initial := .array [], persist := true }

/-- A label that is an object by mistake is refused. -/
def labels : VariableDecl := { name := "labels", type := .string, initial := .object [] }

/-- What is put into the list: an object whose names are not in the order of letters. -/
def filed : Value := .object [("pages", .number (-3)), ("name", .string "a\"b")]

theorem lasting_files : Lasting (.array [filed]) where
  plain := by
    refine .array (List.forall_mem_singleton.2 (.object (by decide) fun f hf => ?_))
    obtain rfl | hf := List.mem_cons.1 hf
    · exact .number _
    · obtain rfl := List.mem_singleton.1 hf
      exact .string _
  depth_le := by decide
  whole x hx := by
    obtain rfl := List.mem_singleton.1 hx
    exact ⟨-3, by decide +kernel, by decide⟩

/-- A list with an object in it is written, and it is there again in a second store over the same
memory. A declaration that is refused changes nothing about that. -/
theorem get_declareEach_anew_files :
    Dict.get? ((desk.declareEach [labels, files]).performAll
      [.set "files" (.array [filed])]).kept.store.vars "files" =
        some ⟨files, .array [filed], none⟩ ∧
      Lasting (.array [filed]) ∧
      ∃ w, ((((desk.declareEach [labels, files]).performAll [.set "files" (.array [filed])]).anew
          [("page", "7")] .null).declareEach [labels, files]).kept.store.get "files" = .ok w ∧
        w.equals (.array [filed]) = true := by
  have hfiles : Dict.get? ((desk.declareEach [labels, files]).performAll
      [.set "files" (.array [filed])]).kept.store.vars "files" =
        some ⟨files, .array [filed], none⟩ := rfl
  exact ⟨hfiles, lasting_files, get_declareEach_anew rfl rfl rfl (.memory _) (fun _ => rfl) _ _ _ _
    hfiles rfl rfl lasting_files⟩

end

/-!
## Saved values that are accepted

What a batch has saved of a variable is not always accepted when it is loaded. It is refused if the
value nests deeper than the reader of texts goes, and if it is a number without an end, which is
written as null. All other values are accepted, and the variable starts with what has been saved.
-/

section

variable {params : Dict String} {ds : List VariableDecl} {l : LiveStore} {storage : Storage}
  {ws : List Write} {s : Store} {c : Commit} {name : String} {v : Variable}

/-- Of each persisted variable that a batch writes the text of its value is kept. It is accepted
just if the value does not nest too deep and is no number without an end, and a variable that is
later declared the same way starts with what is accepted, or else with its initial value. -/
theorem Reachable.accepted_iff (h : Reachable params ds l)
    (hstorage : l.kept.storage = some storage) (hworks : storage.Works)
    (hbatch : l.kept.store.apply ws = .ok (s, c)) (hv : Dict.get? s.vars name = some v)
    (hpersist : v.decl.persist = true) (hname : name ∈ ws.map Write.name) :
    (l.after s c.saves c.notices).kept.load name = some v.value.jsonText ∧
    ((Store.persisted? (l.after s c.saves c.notices).kept.load v.decl).isSome ↔
      v.value.depth ≤ 127 ∧ ∀ x, v.value = .number x → isFinite x = true) ∧
    ∀ params' resident ds' w,
      Dict.get? (((l.after s c.saves c.notices).anew params' resident).declareEach
        ds').kept.store.vars name = some w → w.decl = v.decl →
      ∃ initial, v.decl.type.coerce name v.decl.initial = .ok initial ∧
        w.value =
          (Store.persisted? (l.after s c.saves c.notices).kept.load v.decl).getD initial := by
  have hafter : s.Typed := h.invariant.2.1.apply hbatch
  have hload := load_after_of_mem hstorage hworks hbatch hv hpersist hname
  have hwritable := Store.isReadOnly_of_apply hbatch hname hv
  obtain rfl := hafter.named name v hv
  refine ⟨hload, ?_, fun params' resident ds' w hw hdecl => ?_⟩
  · exact Store.isSome_persisted?_iff hload ((hafter.allows _ v hv).admits hwritable)
  · have hnew : ((l.after s c.saves c.notices).anew params' resident).New := .blank rfl rfl
    obtain ⟨initial, hinitial, hvalue⟩ :=
      (hnew.declareEach ds').seeded _ w hw (hdecl ▸ hwritable)
    rw [(SameBase.declareEach hnew.coherent ds').load_eq, hdecl, if_pos hpersist] at hvalue
    rw [hdecl] at hinitial
    exact ⟨initial, hinitial, hvalue⟩

/-- What has been saved of the list is accepted when it is loaded. -/
theorem Reachable.accepted_iff_files : ∃ s c,
    (desk.declareEach [files]).kept.store.apply [.set "files" (.array [filed])] = .ok (s, c) ∧
      Dict.get? s.vars "files" = some ⟨files, .array [filed], none⟩ ∧
      ((desk.declareEach [files]).after s c.saves c.notices).kept.load "files" =
        some (Value.array [filed]).jsonText ∧
      (Store.persisted? ((desk.declareEach [files]).after s c.saves c.notices).kept.load
        files).isSome := by
  have hreach : Reachable [] ([] ++ [files]) (desk.declareEach [files]) :=
    .declare (.blank rfl rfl rfl) (by decide +kernel)
  have hname : "files" ∈ [Write.set "files" (.array [filed])].map Write.name :=
    List.mem_singleton_self _
  refine ⟨_, _, rfl, rfl, ?_⟩
  obtain ⟨hload, haccepted, -⟩ := hreach.accepted_iff (v := ⟨files, .array [filed], none⟩)
    rfl (.memory _) rfl rfl rfl hname
  exact ⟨hload, haccepted.2 ⟨by decide, fun x hx => nomatch hx⟩⟩

/-- A list in a list, and so on. -/
def nested : Nat → Value
  | 0 => .array []
  | n + 1 => .array [nested n]

theorem depth_nested (n : Nat) : (nested n).depth = n + 1 := by
  induction n with
  | zero => rfl
  | succ n ih =>
    rw [nested, Value.depth, Value.depthItems, Value.depthItems, ih]
    rfl

theorem get_files (l : LiveStore) :
    ((l.anew [] .undefined).declareEach [files]).kept.store.get "files" =
      .ok ((Store.persisted? l.kept.load files).getD (.array [])) := rfl

theorem persisted?_nested {load : String → Option String} {n : Nat} (hn : 127 ≤ n)
    (hload : load files.name = some (nested n).jsonText) : Store.persisted? load files = none := by
  have hadmits : files.type.admits (nested n) = true := by cases n <;> rfl
  refine Option.not_isSome_iff_eq_none.1 fun hsome => ?_
  have hdepth := ((Store.isSome_persisted?_iff hload hadmits).1 hsome).1
  rw [depth_nested] at hdepth
  omega

/-- A list that nests too deep is written, and the next store has the initial one instead. -/
theorem not_accepted_nested : ∃ s c,
    (desk.declareEach [files]).kept.store.apply [.set "files" (nested 127)] = .ok (s, c) ∧
      ((desk.declareEach [files]).after s c.saves c.notices).kept.load "files" =
        some (nested 127).jsonText ∧
      Store.persisted? ((desk.declareEach [files]).after s c.saves c.notices).kept.load files =
        none ∧
      ((((desk.declareEach [files]).after s c.saves c.notices).anew [] .undefined).declareEach
        [files]).kept.store.get "files" = .ok (.array []) := by
  have hname : "files" ∈ [Write.set "files" (nested 127)].map Write.name :=
    List.mem_singleton_self _
  refine ⟨_, _, rfl, ?_⟩
  have hload := load_after_of_mem (l := desk.declareEach [files]) (v := ⟨files, nested 127, none⟩)
    rfl (.memory _) rfl rfl rfl hname
  have hnone := persisted?_nested (Nat.le_refl 127) hload
  refine ⟨hload, hnone, ?_⟩
  rw [get_files, hnone]
  rfl

end

end LiveStore

end Archipelago
