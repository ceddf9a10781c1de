import Archipelago.Proofs.Store.Overwrites

/-!
# Values at paths

A path leads from an object through the values of its members. What is put at the end of a path is
found there, and beside the path all is as it was, unless the path leads through a list: a list on
the way is replaced by an object, and its items are gone.
-/

namespace Archipelago

namespace Dict

variable {α : Type}

theorem length_insert_of_notMem {d : Dict α} {name : String} (h : name ∉ keys d) (x : α) :
    (insert d name x).length = d.length + 1 := by
  rw [insert_of_notMem h, List.length_append, List.length_singleton]

end Dict

namespace Value

/-! ## Reading -/

/-- What is found at the end of a path. -/
def follow (v : Value) (path : List String) : Value :=
  path.foldl (fun v name => v.segment (string name)) v

@[simp] theorem follow_nil (v : Value) : v.follow [] = v := rfl

@[simp] theorem follow_cons (v : Value) (name : String) (path : List String) :
    v.follow (name :: path) = (v.segment (string name)).follow path := rfl

@[simp] theorem segment_object (fields : Dict Value) (name : String) :
    (object fields).segment (string name) = (Dict.get? fields name).getD undefined := rfl

/-- No path leads anywhere. -/
def Barren (v : Value) : Prop := ∀ name, v.segment (string name) = undefined

theorem barren_undefined : undefined.Barren := fun _ => rfl

theorem barren_empty : (object []).Barren := fun _ => rfl

theorem Barren.follow {v : Value} (h : v.Barren) {path : List String} (hpath : path ≠ []) :
    v.follow path = undefined := by
  induction path generalizing v with
  | nil => exact absurd rfl hpath
  | cons name path ih =>
    rw [follow_cons, h name]
    cases path with
    | nil => rfl
    | cons => exact ih barren_undefined (List.cons_ne_nil _ _)

/-- Only lists and objects have something in them. -/
theorem barren_or (v : Value) :
    (∃ items, v = array items) ∨ (∃ fields, v = object fields) ∨ v.Barren := by
  cases v with
  | array items => exact .inl ⟨items, rfl⟩
  | object fields => exact .inr (.inl ⟨fields, rfl⟩)
  | _ => exact .inr (.inr fun _ => rfl)

/-- The members of a value, if it is an object. -/
def inner : Value → Dict Value
  | object fields => fields
  | _ => []

theorem inner_of_barren {v : Value} (h : v.Barren) : (object v.inner).Barren := by
  cases v with
  | object fields => exact h
  | _ => exact barren_empty

/-! ## Paths that part -/

/-- Neither path leads to the other one. -/
def Parted (p q : List String) : Prop := ¬p <+: q ∧ ¬q <+: p

instance (p q : List String) : Decidable (Parted p q) := inferInstanceAs (Decidable (_ ∧ _))

namespace Parted

variable {p q : List String} {name other : String}

theorem ne_nil (h : Parted p q) : p ≠ [] ∧ q ≠ [] :=
  ⟨fun hp => h.1 (hp ▸ List.nil_prefix), fun hq => h.2 (hq ▸ List.nil_prefix)⟩

theorem of_cons (h : Parted (name :: p) (name :: q)) : Parted p q := by
  unfold Parted at h ⊢
  simpa only [List.cons_prefix_cons, true_and] using h

end Parted

/-- Both paths lead through the same list. -/
def SharesList (v : Value) (p q : List String) : Prop :=
  ∃ r items, r <+: p ∧ r <+: q ∧ v.follow r = array items

theorem sharesList_array (items : List Value) (p q : List String) : (array items).SharesList p q :=
  ⟨[], items, List.nil_prefix, List.nil_prefix, rfl⟩

theorem object_ne_array (fields : Dict Value) : ∀ items, object fields ≠ array items := nofun

namespace SharesList

variable {v : Value} {p q : List String} {name other : String}

theorem cons_iff (hv : ∀ items, v ≠ array items) :
    v.SharesList (name :: p) (name :: q) ↔ (v.segment (string name)).SharesList p q := by
  constructor
  · rintro ⟨r, items, hp, hq, hr⟩
    cases r with
    | nil => exact absurd hr (hv items)
    | cons first r =>
      obtain ⟨rfl, hp'⟩ := List.cons_prefix_cons.1 hp
      exact ⟨r, items, hp', (List.cons_prefix_cons.1 hq).2, hr⟩
  · rintro ⟨r, items, hp, hq, hr⟩
    exact ⟨name :: r, items, List.cons_prefix_cons.2 ⟨rfl, hp⟩, List.cons_prefix_cons.2 ⟨rfl, hq⟩,
      hr⟩

/-- Paths that part at once share nothing but where they start. -/
theorem not_of_ne (hv : ∀ items, v ≠ array items) (hne : name ≠ other) :
    ¬v.SharesList (name :: p) (other :: q) := by
  rintro ⟨r, items, hp, hq, hr⟩
  cases r with
  | nil => exact hv items hr
  | cons first r =>
    exact hne ((List.cons_prefix_cons.1 hp).1.symm.trans (List.cons_prefix_cons.1 hq).1)

end SharesList

end Value

namespace Action

open Value (Parted)

/-! ## Writing -/

theorem setPath_cons (fs : Dict Value) (name : String) {path : List String} (hpath : path ≠ [])
    (v : Value) : setPath fs (name :: path) v = Dict.insert fs name
      (.object (setPath ((Value.object fs).segment (.string name)).inner path v)) := by
  cases path with
  | nil => exact absurd rfl hpath
  | cons next path =>
    rw [setPath, Value.segment_object]
    · cases Dict.get? fs name with
      | none => rfl
      | some child => cases child <;> rfl
    · exact nofun

/-- The value of a member that has been set below. -/
theorem segment_setPath (fs : Dict Value) (name : String) {path : List String} (hpath : path ≠ [])
    (v : Value) : (Value.object (setPath fs (name :: path) v)).segment (.string name) =
      .object (setPath ((Value.object fs).segment (.string name)).inner path v) := by
  rw [setPath_cons fs name hpath, Value.segment_object, Dict.get?_insert_self, Option.getD_some]

theorem segment_setPath_of_ne (fs : Dict Value) {name other : String} (hne : name ≠ other)
    (path : List String) (v : Value) :
    (Value.object (setPath fs (name :: path) v)).segment (.string other) =
      (Value.object fs).segment (.string other) := by
  cases path with
  | nil => rw [setPath, Value.segment_object, Dict.get?_insert, if_neg hne, Value.segment_object]
  | cons next path =>
    rw [setPath_cons fs name (List.cons_ne_nil _ _), Value.segment_object, Dict.get?_insert,
      if_neg hne, Value.segment_object]

/-- What is put at the end of a path is found there. -/
theorem follow_setPath (fs : Dict Value) {path : List String} (hpath : path ≠ []) (v : Value) :
    (Value.object (setPath fs path v)).follow path = v := by
  induction path generalizing fs with
  | nil => exact absurd rfl hpath
  | cons name path ih =>
    cases path with
    | nil => simp [setPath]
    | cons next path =>
      rw [Value.follow_cons, segment_setPath fs name (List.cons_ne_nil _ _)]
      exact ih _ (List.cons_ne_nil _ _)

/-- In what is made anew for a path there is nothing beside it. -/
theorem follow_setPath_of_barren {fs : Dict Value} (hfs : (Value.object fs).Barren)
    {p q : List String} (h : Parted p q) (v : Value) :
    (Value.object (setPath fs p v)).follow q = .undefined := by
  induction p generalizing fs q with
  | nil => exact absurd rfl h.ne_nil.1
  | cons name p ih =>
    cases q with
    | nil => exact absurd rfl h.ne_nil.2
    | cons other q =>
      rw [Value.follow_cons]
      by_cases hne : name = other
      · subst hne
        rw [segment_setPath fs name h.of_cons.ne_nil.1]
        refine ih ?_ h.of_cons
        rw [hfs name]
        exact Value.barren_empty
      · rw [segment_setPath_of_ne fs hne, ← Value.follow_cons]
        exact hfs.follow (List.cons_ne_nil _ _)

/-- Beside a path all is as it was, but for what shared a list with it. -/
theorem follow_setPath_of_parted (fs : Dict Value) {p q : List String} (h : Parted p q)
    (v : Value) :
    ((Value.object fs).SharesList p q → (Value.object (setPath fs p v)).follow q = .undefined) ∧
    (¬(Value.object fs).SharesList p q →
      (Value.object (setPath fs p v)).follow q = (Value.object fs).follow q) := by
  induction p generalizing fs q with
  | nil => exact absurd rfl h.ne_nil.1
  | cons name p ih =>
    cases q with
    | nil => exact absurd rfl h.ne_nil.2
    | cons other q =>
      by_cases hne : name = other
      · subst hne
        rw [Value.SharesList.cons_iff (Value.object_ne_array fs), Value.follow_cons,
          Value.follow_cons, segment_setPath fs name h.of_cons.ne_nil.1]
        obtain ⟨items, hchild⟩ | ⟨fields, hchild⟩ | hbarren :=
          Value.barren_or ((Value.object fs).segment (.string name))
        · rw [hchild]
          refine ⟨fun _ => follow_setPath_of_barren Value.barren_empty h.of_cons v, fun hnot => ?_⟩
          exact absurd (Value.sharesList_array items p q) hnot
        · rw [hchild]
          exact ih fields h.of_cons
        · have hgone := follow_setPath_of_barren (Value.inner_of_barren hbarren) h.of_cons v
          refine ⟨fun _ => hgone, fun _ => hgone.trans (hbarren.follow h.of_cons.ne_nil.2).symm⟩
      · rw [Value.follow_cons, Value.follow_cons, segment_setPath_of_ne fs hne]
        have hnot := Value.SharesList.not_of_ne (p := p) (q := q) (Value.object_ne_array fs) hne
        exact ⟨fun hshares => absurd hshares hnot, fun _ => rfl⟩

end Action

namespace Value

/-! ## Writing what is there -/

theorem get?_of_sameFields {fs gs : Dict Value} (h : sameFields fs gs = true) {name : String}
    {x : Value} (hx : Dict.get? fs name = some x) :
    ∃ y, Dict.get? gs name = some y ∧ x.same y = true := by
  induction fs with
  | nil => cases hx
  | cons f fs ih =>
    obtain ⟨k, w⟩ := f
    rw [sameFields, Bool.and_eq_true] at h
    obtain ⟨hfirst, hrest⟩ := h
    unfold Dict.get? at hx
    split at hx
    · rename_i hk
      obtain rfl := hk
      obtain rfl := Option.some.inj hx
      split at hfirst
      · rename_i y hy
        exact ⟨y, hy, hfirst⟩
      · cases hfirst
    · exact ih hrest hx

/-- An object that is equal to what becomes of it with a member put in has an equal member. -/
theorem exists_of_same_insert {fs : Dict Value} {name : String} {y : Value}
    (h : (object fs).same (object (Dict.insert fs name y)) = true) :
    ∃ x, Dict.get? fs name = some x ∧ x.same y = true := by
  rw [same, Bool.and_eq_true, beq_iff_eq] at h
  obtain ⟨hlength, hfields⟩ := h
  have hmem : name ∈ Dict.keys fs := by
    by_contra hnot
    rw [Dict.length_insert_of_notMem hnot] at hlength
    omega
  obtain ⟨x, hx⟩ := Dict.mem_keys_iff.1 hmem
  obtain ⟨y', hy', hsame⟩ := get?_of_sameFields hfields hx
  rw [Dict.get?_insert_self] at hy'
  exact ⟨x, hx, Option.some.inj hy' ▸ hsame⟩

theorem exists_object_of_same {x : Value} {fs : Dict Value} (h : x.same (object fs) = true) :
    ∃ inner, x = object inner := by
  cases x with
  | object inner => exact ⟨inner, rfl⟩
  | _ => cases h

end Value

namespace Action

/-- An object that is equal to what becomes of it has an equal value at the end of the path, and no
list on the way there. -/
theorem of_same_setPath {fs : Dict Value} {path : List String} (hpath : path ≠ []) {v : Value}
    (h : (Value.object fs).same (.object (setPath fs path v)) = true) :
    ((Value.object fs).follow path).same v = true ∧
      ∀ r items, r <+: path → r ≠ path → (Value.object fs).follow r ≠ .array items := by
  induction path generalizing fs with
  | nil => exact absurd rfl hpath
  | cons name path ih =>
    by_cases hrest : path = []
    · subst hrest
      obtain ⟨x, hx, hsame⟩ := Value.exists_of_same_insert (y := v) h
      refine ⟨by simpa [hx] using hsame, fun r items hr hne => ?_⟩
      cases r with
      | nil => exact Value.object_ne_array fs items
      | cons first r =>
        obtain ⟨rfl, hr'⟩ := List.cons_prefix_cons.1 hr
        exact absurd (List.prefix_nil.1 hr' ▸ rfl) hne
    · rw [setPath_cons fs name hrest] at h
      obtain ⟨x, hx, hsame⟩ := Value.exists_of_same_insert h
      obtain ⟨inner, rfl⟩ := Value.exists_object_of_same hsame
      have hsegment : (Value.object fs).segment (.string name) = .object inner := by
        rw [Value.segment_object, hx, Option.getD_some]
      rw [hsegment] at hsame
      obtain ⟨hvalue, hlists⟩ := ih hrest hsame
      refine ⟨by rwa [Value.follow_cons, hsegment], fun r items hr hne => ?_⟩
      cases r with
      | nil => exact Value.object_ne_array fs items
      | cons first r =>
        obtain ⟨rfl, hr'⟩ := List.cons_prefix_cons.1 hr
        rw [Value.follow_cons, hsegment]
        exact hlists r items hr' fun heq => hne (heq ▸ rfl)

/-! ## The update of a variable -/

/-- Where no object is yet, the members are put into an empty one. -/
theorem fields_eq_ok {var : String} {v : Value} {fs : Dict Value} (h : fields var v = .ok fs) :
    v = .object fs ∨ v.Barren ∧ fs = [] := by
  cases v with
  | object => exact .inl (congrArg _ (Except.ok.inj h))
  | undefined | null => exact .inr ⟨fun _ => rfl, (Except.ok.inj h).symm⟩
  | _ => cases h

theorem writes_objectSet_eq_ok {s : Store} {locals : Dict Value} {var path : String}
    {value : Operand} {ws : List Write} (h : (objectSet var path value).writes s locals = .ok ws) :
    ∃ old fs x, s.get var = .ok old ∧ fields var old = .ok fs ∧ pathSegments path ≠ [] ∧
      value.resolve s.limits s.toScope [locals] = .ok x ∧
      ws = [.set var (.object (setPath fs (pathSegments path) x))] := by
  obtain ⟨old, hold, h⟩ := bind_eq_ok.1 h
  obtain ⟨fs, hfs, h⟩ := bind_eq_ok.1 h
  dsimp only at h
  split at h
  · cases h
  · rename_i hpath
    obtain ⟨x, hx, h⟩ := bind_eq_ok.1 h
    refine ⟨old, fs, x, mapError_eq_ok.1 hold, hfs, ?_, mapError_eq_ok.1 hx, (Except.ok.inj h).symm⟩
    rwa [List.isEmpty_iff] at hpath

/-- A value that is put at the end of a path is there afterwards, unless an equal one is there and
stays, and beside the path only that is lost which shares a list with it. -/
theorem follow_overwrite {var : String} {old : Value} {fs : Dict Value}
    (hfs : fields var old = .ok fs) {p : List String} (hp : p ≠ []) {x new : Value}
    (hnew : new = old.overwrite (.object (setPath fs p x))) :
    (new.follow p = x ∨ new = old ∧ (old.follow p).same x = true) ∧
    ∀ q, Value.Parted p q →
      (new.follow q = old.follow q ↔ (old.SharesList p q → old.follow q = .undefined)) := by
  unfold Value.overwrite at hnew
  split at hnew
  · rename_i hsame
    subst hnew
    obtain ⟨inner, rfl⟩ := Value.exists_object_of_same hsame
    obtain rfl := Except.ok.inj hfs
    obtain ⟨hvalue, hlists⟩ := of_same_setPath hp hsame
    refine ⟨.inr ⟨rfl, hvalue⟩, fun q hq => iff_of_true rfl ?_⟩
    rintro ⟨r, items, hrp, hrq, hr⟩
    exact absurd hr (hlists r items hrp fun heq => hq.1 (heq ▸ hrq))
  · subst hnew
    refine ⟨.inl (follow_setPath fs hp x), fun q hq => ?_⟩
    obtain ⟨hlost, hkept⟩ := follow_setPath_of_parted fs hq x
    obtain rfl | ⟨hbarren, rfl⟩ := fields_eq_ok hfs
    · by_cases hshares : (Value.object fs).SharesList p q
      · rw [hlost hshares, eq_comm]
        exact (imp_iff_right hshares).symm
      · exact iff_of_true (hkept hshares) fun h => absurd h hshares
    · refine iff_of_true ?_ fun _ => hbarren.follow hq.ne_nil.2
      rw [follow_setPath_of_barren Value.barren_empty hq, hbarren.follow hq.ne_nil.2]

end Action

namespace LiveStore

variable {l : LiveStore}

/-- Whatever has been asked of a store, after a value has been put at the end of a path of a
variable it is found there, unless an equal one has been there, and then the variable is as before.
Beside the path all is found that was there, but for what is in a list that the path leads
through. -/
theorem Blank.follow_objectSet (hl : l.Blank) (history : List Request) {locals : Dict Value}
    {var path : String} {value : Operand} {changed : List String} {l' : LiveStore}
    (h : (execute locals (.objectSet var path value)).run (l.serve history) = (.ok changed, l')) :
    ∃ old x new, (l.serve history).kept.store.get var = .ok old ∧
      value.resolve (l.serve history).kept.store.limits (l.serve history).kept.store.toScope
        [locals] = .ok x ∧
      l'.kept.store.get var = .ok new ∧
      (new.follow (Action.pathSegments path) = x ∨
        new = old ∧ (old.follow (Action.pathSegments path)).same x = true) ∧
      ∀ q, Value.Parted (Action.pathSegments path) q → (new.follow q = old.follow q ↔
        (old.SharesList (Action.pathSegments path) q → old.follow q = .undefined)) := by
  cases hwrites : (Action.objectSet var path value).writes (l.serve history).kept.store locals with
  | error e => rw [run_execute_error hwrites] at h; cases h
  | ok ws =>
    obtain ⟨old, fs, x, hold, hfs, hpath, hx, rfl⟩ := Action.writes_objectSet_eq_ok hwrites
    obtain ⟨v, c, hv, hc, hnew⟩ := exists_of_execute_set (hl.ordered_serve history) hwrites h
    obtain rfl : v.value = old := by
      rw [Store.get, hv] at hold
      exact Except.ok.inj hold
    obtain rfl : .object (Action.setPath fs (Action.pathSegments path) x) = c := by
      cases htype : v.decl.type with
      | object => rw [htype] at hc; exact Except.ok.inj hc
      | _ => rw [htype] at hc; cases hc
    exact ⟨v.value, x, _, hold, hx, hnew, Action.follow_overwrite hfs hpath rfl⟩

/-- A name, and an object with a link in it. -/
def readerFields : Dict Value :=
  [("name", .string "Ada"), ("links", .object [("page", .string "ada.html")])]

/-- A reader with a page. -/
def reader : VariableDecl := { name := "reader", type := .object, initial := .object readerFields }

/-- Notes are put beside the page. -/
def noting : Action := .objectSet "reader" "links.notes.first" (.value (.string "a.html"))

/-- What is put at one path of a reader leaves what is at other paths as it was. They go on together
to an object, and no farther, so no list is shared. -/
theorem follow_objectSet_reader : ∃ changed l' new,
    (execute [] noting).run (serve { kept := ⟨{}, none⟩ } [.declare reader]) = (.ok changed, l') ∧
    l'.kept.store.get "reader" = .ok new ∧
    new.follow ["links", "notes", "first"] = .string "a.html" ∧
    new.follow ["links", "page"] = .string "ada.html" ∧ new.follow ["name"] = .string "Ada" := by
  have hpath : Action.pathSegments "links.notes.first" = ["links", "notes", "first"] := by
    decide +kernel
  have hwrites : noting.writes (serve { kept := ⟨{}, none⟩ } [.declare reader]).kept.store [] =
      .ok [.set "reader" (.object (Action.setPath readerFields ["links", "notes", "first"]
        (.string "a.html")))] := by
    have hget : (serve { kept := ⟨{}, none⟩ } [.declare reader]).kept.store.get "reader" =
        .ok (.object readerFields) := rfl
    simp only [noting, Action.writes, Action.current, hget, hpath, Except.mapError, bind,
      Except.bind]
    rfl
  obtain ⟨changed, l', -, hrun, -, -⟩ := exists_execute_set
    (Blank.ordered_serve ⟨rfl, rfl, rfl⟩ [.declare reader]) hwrites
    (v := ⟨reader, .object readerFields, none⟩) rfl rfl
  obtain ⟨old, x, new, hold, hx, hnew, hvalue, hbeside⟩ :=
    Blank.follow_objectSet ⟨rfl, rfl, rfl⟩ [.declare reader] hrun
  obtain rfl : reader.initial = old := Except.ok.inj hold
  obtain rfl : .string "a.html" = x := Except.ok.inj hx
  rw [hpath] at hvalue hbeside
  refine ⟨changed, l', new, hrun, hnew, hvalue.resolve_right ?_, ?_, ?_⟩
  · rintro ⟨-, hsame⟩
    cases hsame
  · refine (hbeside ["links", "page"] (by decide)).2 fun hshares => ?_
    have hlinks := (Value.SharesList.cons_iff (Value.object_ne_array _)).1 hshares
    exact absurd hlinks (Value.SharesList.not_of_ne (Value.object_ne_array _) (by decide))
  · refine (hbeside ["name"] (by decide)).2 fun hshares => ?_
    exact absurd hshares (Value.SharesList.not_of_ne (Value.object_ne_array _) (by decide))

/-- A reader with some marks. -/
def marked : VariableDecl where
  name := "reader"
  type := .object
  initial := .object [("marks", .array [.number 1, .number 2])]

/-- To put a mark in the place of the first one loses the second one. -/
theorem not_follow_objectSet : ∃ changed l' old new,
    (execute [] (.objectSet "reader" "marks.0" (.value (.number 9)))).run
      (serve { kept := ⟨{}, none⟩ } [.declare marked]) = (.ok changed, l') ∧
    (serve { kept := ⟨{}, none⟩ } [.declare marked]).kept.store.get "reader" = .ok old ∧
    l'.kept.store.get "reader" = .ok new ∧
    Value.Parted (Action.pathSegments "marks.0") ["marks", "1"] ∧
    old.follow ["marks", "1"] = .number 2 ∧ new.follow ["marks", "1"] = .undefined := by
  have hpath : Action.pathSegments "marks.0" = ["marks", "0"] := by decide +kernel
  have hold : (serve { kept := ⟨{}, none⟩ } [.declare marked]).kept.store.get "reader" =
      .ok marked.initial := rfl
  have hwrites : (Action.objectSet "reader" "marks.0" (.value (.number 9))).writes
      (serve { kept := ⟨{}, none⟩ } [.declare marked]).kept.store [] =
        .ok [.set "reader" (.object [("marks", .object [("0", .number 9)])])] := by
    simp only [Action.writes, Action.current, hold, hpath, Except.mapError, bind, Except.bind]
    rfl
  obtain ⟨changed, l', -, hrun, -, hv⟩ := exists_execute_set
    (Blank.ordered_serve ⟨rfl, rfl, rfl⟩ [.declare marked]) hwrites
    (v := ⟨marked, marked.initial, none⟩) rfl rfl
  refine ⟨changed, l', marked.initial, _, hrun, hold, by rw [Store.get, hv], ?_, ?_, rfl⟩
  · rw [hpath]
    decide
  · have hindex : (parseNumber "1").bind Value.index? = some 1 := by decide +kernel
    show (Value.array [.number 1, .number 2]).segment (.string "1") = .number 2
    simp only [Value.segment, Value.toNumber?, hindex]
    rfl

end LiveStore

end Archipelago
