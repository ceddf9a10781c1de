import Archipelago.Storage
import Archipelago.Proofs.Value.Plain
import Mathlib.Data.List.Basic
import Mathlib.Data.List.Induction
import Mathlib.Data.Set.Function
import Mathlib.Data.String.Basic

/-!
# Storage by scope and name

A memory keeps its texts by scope and name. A database keeps them by one key that both are joined
into, so it can take one place for another: a separator may stand in a scope as well as in a name.
Apart from such places the two of them give the same answers, and within one scope every storage
that works gives back what has been saved last.

The rows of one scope are looked for among those of all scopes that start with it, and put, kept and
removed by their keys. Where no scope has a separator a key stands for one place, so just what
stands in a scope is loaded, and to clear it touches no other one.
-/

namespace Archipelago

namespace Memory

/-- A text that is put is found in its place, and all others are as before. -/
theorem lookup_put (key other : String × String) (json : String)
    (entries : List ((String × String) × String)) :
    (put key json entries).lookup other =
      if key = other then some json else entries.lookup other := by
  induction entries with
  | nil =>
    rw [put, List.lookup_cons, List.lookup_nil]
    by_cases h : key = other
    · simp [h]
    · simp [h, beq_false_of_ne (Ne.symm h)]
  | cons e entries ih =>
    obtain ⟨k, j⟩ := e
    rw [put]
    by_cases hk : k = key
    · subst hk
      by_cases h : k = other
      · simp [h]
      · simp [List.lookup_cons, h, beq_false_of_ne (Ne.symm h)]
    · rw [if_neg hk, List.lookup_cons, List.lookup_cons, ih]
      by_cases h : other = k
      · subst h
        simp [Ne.symm hk]
      · simp [beq_false_of_ne h]

theorem lookup_filter_ne (key other : String × String)
    (entries : List ((String × String) × String)) :
    (entries.filter (·.1 ≠ key)).lookup other =
      if key = other then none else entries.lookup other := by
  induction entries with
  | nil => simp
  | cons e entries ih =>
    obtain ⟨k, j⟩ := e
    by_cases hk : k = key
    · subst hk
      rw [List.filter_cons_of_neg (by simp), ih, List.lookup_cons]
      by_cases h : k = other
      · simp [h]
      · simp [h, beq_false_of_ne (Ne.symm h)]
    · rw [List.filter_cons_of_pos (by simpa using hk), List.lookup_cons, List.lookup_cons, ih]
      by_cases h : other = k
      · subst h
        simp [Ne.symm hk]
      · simp [beq_false_of_ne h]

/-- What is saved is loaded, and nothing else has changed. -/
theorem load_save (m : Memory) (scope name json scope' name' : String) :
    (m.save scope name json).load scope' name' =
      if (scope, name) = (scope', name') then some json else m.load scope' name' :=
  lookup_put _ _ _ _

theorem load_remove (m : Memory) (scope name scope' name' : String) :
    (m.remove scope name).load scope' name' =
      if (scope, name) = (scope', name') then none else m.load scope' name' :=
  lookup_filter_ne _ _ _

end Memory

namespace StoredVariable

theorem toList_keyOf (scope name : String) :
    (keyOf scope name).toList = scope.toList ++ '\x1f' :: name.toList := by
  rw [keyOf, String.toList_append, String.toList_append, List.append_assoc]
  rfl

/-- Two places have one key only if a separator in one of the scopes stands where the other scope
ends. -/
theorem keyOf_eq_iff {scope name scope' name' : String} :
    keyOf scope name = keyOf scope' name' ↔ (scope, name) = (scope', name') ∨
      (∃ part, scope' = keyOf scope part ∧ name = keyOf part name') ∨
        ∃ part, scope = keyOf scope' part ∧ name' = keyOf part name := by
  -- of two ways to cut one text, the one that cuts later has a separator where the other one cuts
  have hcut : ∀ {s n s' n' : String} {cs : List Char}, s'.toList = s.toList ++ cs →
      '\x1f' :: n.toList = cs ++ '\x1f' :: n'.toList → (s, n) = (s', n') ∨
        ∃ part, s' = keyOf s part ∧ n = keyOf part n' := by
    intro s n s' n' cs hs hn
    cases cs with
    | nil =>
      rw [List.append_nil] at hs
      rw [List.nil_append] at hn
      rw [String.toList_inj.1 hs, String.toList_inj.1 (List.cons.inj hn).2]
      exact .inl rfl
    | cons c cs =>
      obtain ⟨rfl, htail⟩ := List.cons.inj hn
      refine .inr ⟨String.ofList cs, String.toList_inj.1 ?_, String.toList_inj.1 ?_⟩
      · rw [hs, toList_keyOf, String.toList_ofList]
      · rw [htail, toList_keyOf, String.toList_ofList]
        rfl
  rw [← String.toList_inj, toList_keyOf, toList_keyOf, List.append_eq_append_iff]
  constructor
  · rintro (⟨cs, hs, hn⟩ | ⟨cs, hs, hn⟩)
    · exact (hcut hs hn).imp id .inl
    · exact (hcut hs hn).imp Eq.symm .inr
  · rintro (h | ⟨part, rfl, rfl⟩ | ⟨part, rfl, rfl⟩)
    · obtain ⟨rfl, rfl⟩ := Prod.mk.inj h
      exact .inl ⟨[], by simp, rfl⟩
    · exact .inl ⟨'\x1f' :: part.toList, by simp [toList_keyOf]⟩
    · exact .inr ⟨'\x1f' :: part.toList, by simp [toList_keyOf]⟩

/-- The keys of some places are apart just if no text with two separators is cut at both of them. -/
theorem injOn_keyOf_iff {places : Set (String × String)} :
    places.InjOn (fun p => keyOf p.1 p.2) ↔ ∀ scope part name,
      (scope, keyOf part name) ∈ places → (keyOf scope part, name) ∉ places := by
  constructor
  · intro hinj scope part name h h'
    have hsame := hinj h h' ((keyOf_eq_iff).2 (.inr (.inl ⟨part, rfl, rfl⟩)))
    have hlength := congrArg (fun p : String × String => p.1.toList.length) hsame
    simp [toList_keyOf] at hlength
  · rintro hcut ⟨scope, name⟩ h ⟨scope', name'⟩ h' hkey
    have hkey : keyOf scope name = keyOf scope' name' := hkey
    obtain heq | ⟨part, rfl, rfl⟩ | ⟨part, rfl, rfl⟩ := keyOf_eq_iff.1 hkey
    · exact heq
    · exact absurd h' (hcut scope part name' h)
    · exact absurd h (hcut scope' part name h')

/-- In one scope, places have different keys. -/
theorem keyOf_inj {scope name name' : String} :
    keyOf scope name = keyOf scope name' ↔ name = name' := by
  rw [← String.toList_inj, toList_keyOf, toList_keyOf, List.append_cancel_left_eq, List.cons.injEq,
    String.toList_inj]
  exact and_iff_right rfl

end StoredVariable

namespace Database

open StoredVariable (keyOf)

/-- A row that is put is found by its key, and all others are as before. -/
theorem find?_upsert (v : StoredVariable) (key : String) (rows : List StoredVariable) :
    (upsert v rows).find? (·.key = key) =
      if v.key = key then some v else rows.find? (·.key = key) := by
  induction rows with
  | nil =>
    rw [upsert, List.find?_cons]
    by_cases h : v.key = key
    · simp [h]
    · simp [h]
  | cons r rows ih =>
    rw [upsert]
    by_cases hr : r.key = v.key
    · rw [if_pos hr]
      by_cases h : v.key = key
      · simp [h]
      · simp [h, hr]
    · rw [if_neg hr]
      by_cases h : v.key = key
      · split
        · simp [h]
        · rw [List.find?_cons_of_neg (by simpa [← h] using hr), ih, if_pos h]
      · rw [if_neg h] at ih ⊢
        split
        · rw [List.find?_cons_of_neg (by simpa using h)]
        · rw [List.find?_cons, List.find?_cons, ih]

theorem find?_filter_ne (key other : String) (rows : List StoredVariable) :
    (rows.filter (·.key ≠ key)).find? (·.key = other) =
      if key = other then none else rows.find? (·.key = other) := by
  rw [List.find?_filter]
  by_cases h : key = other
  · subst h
    simp
  · rw [if_neg h]
    congr 1
    funext r
    by_cases hr : r.key = other
    · simp [hr, Ne.symm h]
    · simp [hr]

/-- Rows are found by their keys, so a place with the same key has the same text. -/
theorem load_save (d : Database) (scope name json scope' name' : String) :
    (d.save scope name json).load scope' name' =
      if keyOf scope name = keyOf scope' name' then some json else d.load scope' name' := by
  rw [load, save, find?_upsert]
  show Option.map _ (if keyOf scope name = _ then _ else _) = _
  split <;> rfl

theorem load_remove (d : Database) (scope name scope' name' : String) :
    (d.remove scope name).load scope' name' =
      if keyOf scope name = keyOf scope' name' then none else d.load scope' name' := by
  rw [load, remove, find?_filter_ne]
  split <;> rfl

end Database

namespace Storage

open StoredVariable (keyOf)

/-- What can be asked of a storage. -/
inductive Call where
  | save (scope name json : String)
  | load (scope name : String)
  | remove (scope name : String)

/-- The scope and the name that a call is about. -/
def Call.place : Call → String × String
  | save scope name _ | load scope name | remove scope name => (scope, name)

/-- What the loads among the calls are answered, first to last. -/
def answers (s : Storage) : List Call → List (Option String)
  | [] => []
  | .save scope name json :: calls => (s.save scope name json).answers calls
  | .load scope name :: calls => s.load scope name :: s.answers calls
  | .remove scope name :: calls => (s.remove scope name).answers calls

/-- As long as the keys of the places are apart, a save or a removal at one of them does to the row
of each what it does to its entry. -/
theorem answers_eq_of_load_eq {places : Set (String × String)}
    (hinj : places.InjOn (fun p => keyOf p.1 p.2)) {calls : List Call} {d : Database} {m : Memory}
    (hcalls : ∀ c ∈ calls, c.place ∈ places)
    (hload : ∀ p ∈ places, d.load p.1 p.2 = m.load p.1 p.2) :
    (database d).answers calls = (memory m false false).answers calls := by
  have hkey : ∀ {scope name}, (scope, name) ∈ places → ∀ p ∈ places,
      keyOf scope name = keyOf p.1 p.2 ↔ (scope, name) = (p.1, p.2) :=
    fun h p hp => ⟨hinj h hp, fun heq => by rw [Prod.mk.inj heq |>.1, Prod.mk.inj heq |>.2]⟩
  induction calls generalizing d m with
  | nil => rfl
  | cons c calls ih =>
    obtain ⟨hc, hrest⟩ := List.forall_mem_cons.1 hcalls
    cases c with
    | save scope name json =>
      refine ih hrest fun p hp => ?_
      rw [Database.load_save, Memory.load_save, hload p hp]
      simp only [hkey hc p hp]
    | load scope name =>
      have hhead : (database d).load scope name = (memory m false false).load scope name :=
        hload _ hc
      rw [answers, answers, hhead, ih hrest hload]
    | remove scope name =>
      refine ih hrest fun p hp => ?_
      rw [Database.load_remove, Memory.load_remove, hload p hp]
      simp only [hkey hc p hp]

/-- A new database answers every series of calls about some places as a new memory does just if no
two of the places differ in nothing but where a text with two separators is cut. -/
theorem answers_agree_iff (places : Set (String × String)) :
    (∀ calls : List Call, (∀ c ∈ calls, c.place ∈ places) →
      (database {}).answers calls = (memory {} false false).answers calls) ↔
    ∀ scope part name, (scope, part ++ "\x1f" ++ name) ∈ places →
      (scope ++ "\x1f" ++ part, name) ∉ places := by
  refine Iff.trans ?_ StoredVariable.injOn_keyOf_iff
  constructor
  · rintro hagree ⟨scope, name⟩ h ⟨scope', name'⟩ h' hkey
    have hanswers := hagree [.save scope name "", .load scope' name'] (by simp [Call.place, h, h'])
    have hload : ((({} : Database).save scope name "").load scope' name') =
        (({} : Memory).save scope name "").load scope' name' := List.head_eq_of_cons_eq hanswers
    rw [Database.load_save, Memory.load_save, if_pos hkey] at hload
    by_contra hne
    rw [if_neg hne] at hload
    cases hload
  · exact fun hinj calls hcalls => answers_eq_of_load_eq hinj hcalls fun _ _ => rfl

/-- A text that is saved under one name of a scope is found under another name of another one. -/
theorem answers_crossed :
    (database {}).answers [.save "a" "b\x1fc" "1", .load "a\x1fb" "c"] = [some "1"] ∧
      (memory {} false false).answers [.save "a" "b\x1fc" "1", .load "a\x1fb" "c"] = [none] := by
  decide

/-! ## Storage that works -/

/-- A storage that neither refuses to load nor to save. -/
inductive Works : Storage → Prop
  | memory (m : Memory) : Works (memory m false false)
  | database (d : Database) : Works (database d)

namespace Works

variable {s : Storage}

theorem save (h : s.Works) (scope name json : String) : (s.save scope name json).Works := by
  cases h with
  | memory m => exact .memory _
  | database d => exact .database _

theorem saveAll (h : s.Works) (scope : String) (entries : List (String × String)) :
    (s.saveAll scope entries).Works := by
  induction entries generalizing s with
  | nil => exact h
  | cons e entries ih => exact ih (h.save _ _ _)

/-- Within one scope the last text saved under a name is found under it, and no other one. -/
theorem load_save (h : s.Works) (scope name json other : String) :
    (s.save scope name json).load scope other =
      if name = other then some json else s.load scope other := by
  cases h with
  | memory m =>
    refine (Memory.load_save ..).trans ?_
    simp only [Prod.mk.injEq, true_and]
    rfl
  | database d =>
    refine (Database.load_save ..).trans ?_
    simp only [StoredVariable.keyOf_inj]
    rfl

/-- A name that is not saved has the text that it had. -/
theorem load_saveAll_of_notMem (h : s.Works) {scope name : String}
    {entries : List (String × String)} (hname : name ∉ entries.map (·.1)) :
    (s.saveAll scope entries).load scope name = s.load scope name := by
  induction entries generalizing s with
  | nil => rfl
  | cons e entries ih =>
    rw [List.map_cons, List.mem_cons, not_or] at hname
    refine (ih (h.save _ _ _) hname.2).trans ?_
    rw [h.load_save, if_neg (Ne.symm hname.1)]

/-- Each name that is saved has its text. -/
theorem load_saveAll_of_mem (h : s.Works) {scope name json : String}
    {entries : List (String × String)} (hnodup : (entries.map (·.1)).Nodup)
    (hmem : (name, json) ∈ entries) :
    (s.saveAll scope entries).load scope name = some json := by
  induction entries generalizing s with
  | nil => cases hmem
  | cons e entries ih =>
    obtain ⟨hnew, hnodup⟩ := List.nodup_cons.1 hnodup
    obtain rfl | hmem := List.mem_cons.1 hmem
    · refine (load_saveAll_of_notMem (h.save _ _ _) hnew).trans ?_
      rw [h.load_save, if_pos rfl]
    · exact ih (h.save _ _ _) hnodup hmem

end Works

end Storage

/-! ## One scope of a database -/

namespace StoredVariable

/-- No separator in a text. -/
def Unseparated (s : String) : Prop := '\x1f' ∉ s.toList

instance : DecidablePred Unseparated := fun _ => inferInstanceAs (Decidable (_ ∉ _))

/-- A key contains a separator, so it is the name of no plain scope. -/
theorem not_unseparated_keyOf (scope name : String) : ¬Unseparated (keyOf scope name) := by
  unfold Unseparated
  rw [toList_keyOf, not_not]
  exact List.mem_append_right _ List.mem_cons_self

/-- Keys of scopes without a separator stand for one place each, whatever the names are. -/
theorem keyOf_eq_of_unseparated {scope name scope' name' : String} (h : Unseparated scope)
    (h' : Unseparated scope') :
    keyOf scope name = keyOf scope' name' ↔ scope = scope' ∧ name = name' := by
  rw [keyOf_eq_iff, Prod.mk.injEq]
  constructor
  · rintro (heq | ⟨part, rfl, -⟩ | ⟨part, rfl, -⟩)
    · exact heq
    · exact absurd h' (not_unseparated_keyOf _ _)
    · exact absurd h (not_unseparated_keyOf _ _)
  · exact .inl

end StoredVariable

namespace Database

open StoredVariable (Unseparated keyOf keyOf_inj keyOf_eq_of_unseparated)

/-! ### Rows in order -/

/-- Rows in the order of their keys. -/
def Sorted (rows : List StoredVariable) : Prop := rows.Pairwise (·.key < ·.key)

variable {rows : List StoredVariable} {v w : StoredVariable}

/-- No key stands twice. -/
theorem Sorted.nodup (h : Sorted rows) : (rows.map (·.key)).Nodup :=
  List.pairwise_map.2 (h.imp ne_of_lt)

theorem Sorted.filter (h : Sorted rows) (p : StoredVariable → Bool) : Sorted (rows.filter p) :=
  List.Pairwise.filter p h

theorem Sorted.eq_of_key (h : Sorted rows) (hv : v ∈ rows) (hw : w ∈ rows) (hkey : v.key = w.key) :
    v = w := List.inj_on_of_nodup_map h.nodup hv hw hkey

/-- A row takes the place of the one with its key. -/
theorem mem_upsert (h : Sorted rows) : w ∈ upsert v rows ↔ w = v ∨ w ∈ rows ∧ w.key ≠ v.key := by
  induction rows with
  | nil => simp [upsert]
  | cons r rows ih =>
    obtain ⟨hr, hrows⟩ := List.pairwise_cons.1 h
    unfold upsert
    split
    · rename_i hkey
      have hlater : ∀ u ∈ rows, u.key ≠ v.key := fun u hu => hkey ▸ ne_of_gt (hr u hu)
      grind
    · rename_i hkey
      split
      · rename_i hlt
        have hlater : ∀ u ∈ rows, u.key ≠ v.key := fun u hu => ne_of_gt (lt_trans hlt (hr u hu))
        grind
      · rw [List.mem_cons, ih hrows]
        grind

/-- To put a row keeps the order of the keys. -/
theorem Sorted.upsert (h : Sorted rows) (v : StoredVariable) : Sorted (upsert v rows) := by
  induction rows with
  | nil => exact List.pairwise_singleton _ v
  | cons r rows ih =>
    obtain ⟨hr, hrows⟩ := List.pairwise_cons.1 h
    unfold Database.upsert
    split
    · rename_i hkey
      exact List.pairwise_cons.2 ⟨fun u hu => hkey ▸ hr u hu, hrows⟩
    · rename_i hkey
      split
      · rename_i hlt
        have hlater : ∀ u ∈ rows, v.key < u.key := fun u hu => lt_trans hlt (hr u hu)
        exact List.pairwise_cons.2 ⟨List.forall_mem_cons.2 ⟨hlt, hlater⟩, h⟩
      · rename_i hnot
        refine List.pairwise_cons.2 ⟨fun u hu => ?_, ih hrows⟩
        rcases (mem_upsert hrows).1 hu with rfl | ⟨hu, -⟩
        · exact lt_of_le_of_ne (not_lt.1 hnot) hkey
        · exact hr u hu

/-! ### Rows of a scope -/

variable {d : Database}

theorem startsWith_self (s : String) : Text.startsWith s s = true :=
  List.isPrefixOf_iff_prefix.2 (List.prefix_refl _)

/-- A scope starts with itself, so no row of it is missed. -/
theorem scopeRows_eq (d : Database) (scope : String) :
    d.scopeRows scope = d.rows.filter (·.scope = scope) := by
  unfold scopeRows startingWith
  rw [List.filter_filter]
  refine List.filter_congr fun v _ => ?_
  by_cases hv : v.scope = scope
  · rw [hv, startsWith_self, Bool.and_true]
  · simp [hv]

/-- The rows that start with a scope and are of it are all that are of it. -/
theorem mem_scopeRows {scope : String} : v ∈ d.scopeRows scope ↔ v ∈ d.rows ∧ v.scope = scope := by
  rw [scopeRows_eq, List.mem_filter, decide_eq_true_iff]

/-- No name is there twice, since the key is made of the name. -/
theorem nodup_scopeRows (h : Sorted d.rows) (scope : String) :
    ((d.scopeRows scope).map (·.name)).Nodup := by
  have hkeys : ((d.scopeRows scope).map (·.key)).Nodup := ((h.filter _).filter _).nodup
  rw [List.Nodup, List.pairwise_map] at hkeys ⊢
  refine hkeys.imp_of_mem fun {u w} hu hw hne hname => hne ?_
  rw [StoredVariable.key, StoredVariable.key, (mem_scopeRows.1 hu).2, (mem_scopeRows.1 hw).2, hname]

/-- All names of a scope are loaded. -/
theorem loadScope_eq (h : Sorted d.rows) (scope : String) :
    d.loadScope scope = (d.scopeRows scope).map fun r => (r.name, r.json) := by
  refine Dict.ofList_of_nodup ?_
  rw [Dict.keys, List.map_map]
  exact nodup_scopeRows h scope

/-- A scope is loaded with exactly its own rows. -/
theorem mem_loadScope (h : Sorted d.rows) {scope name json : String} :
    (name, json) ∈ d.loadScope scope ↔ ⟨scope, name, json⟩ ∈ d.rows := by
  rw [loadScope_eq h, List.mem_map]
  constructor
  · rintro ⟨⟨scope', name', json'⟩, hr, heq⟩
    obtain ⟨hmem, rfl⟩ := mem_scopeRows.1 hr
    cases heq
    exact hmem
  · exact fun hmem => ⟨_, mem_scopeRows.2 ⟨hmem, rfl⟩, rfl⟩

/-- Rows are taken out by their keys, and so just these are. -/
theorem all_key_ne_iff (h : Sorted rows) {gone : List StoredVariable} (hgone : gone ⊆ rows)
    (hv : v ∈ rows) : gone.all (·.key ≠ v.key) = true ↔ v ∉ gone := by
  rw [List.all_eq_true]
  constructor
  · exact fun hall hmem => of_decide_eq_true (hall v hmem) rfl
  · exact fun hnot u hu => decide_eq_true fun hkey => hnot (h.eq_of_key (hgone hu) hv hkey ▸ hu)

/-- To clear a scope leaves all other rows. -/
theorem rows_clearScope (h : Sorted d.rows) (scope : String) :
    (d.clearScope scope).1.rows = d.rows.filter (·.scope ≠ scope) := by
  refine List.filter_congr fun v hv => Bool.eq_iff_iff.2 ?_
  rw [all_key_ne_iff h (fun u hu => (mem_scopeRows.1 hu).1) hv, mem_scopeRows, decide_eq_true_iff]
  exact not_congr (and_iff_right hv)

theorem rows_clear (h : Sorted d.rows) : d.clear.rows = [] := by
  refine List.filter_eq_nil_iff.2 fun v hv => ?_
  rw [all_key_ne_iff h (List.Subset.refl _) hv, not_not]
  exact hv

/-- As many rows are removed as could be loaded. -/
theorem clearScope_snd (h : Sorted d.rows) (scope : String) :
    (d.clearScope scope).2 = (d.loadScope scope).length := by
  rw [loadScope_eq h, List.length_map]
  rfl

/-- The rows of a scope are gone, and those of all other scopes are there as before. -/
theorem scopeRows_clearScope (h : Sorted d.rows) (scope other : String) :
    (d.clearScope scope).1.scopeRows other = if other = scope then [] else d.scopeRows other := by
  rw [scopeRows_eq, scopeRows_eq, rows_clearScope h, List.filter_filter]
  split
  · rename_i heq
    refine List.filter_eq_nil_iff.2 fun v _ hv => ?_
    rw [Bool.and_eq_true, decide_eq_true_iff, decide_eq_true_iff, heq] at hv
    exact hv.2 hv.1
  · rename_i hne
    refine List.filter_congr fun v _ => ?_
    by_cases hv : v.scope = other
    · simp [hv, hne]
    · simp [hv]

/-! ### Requests -/

/-- What changes a database. -/
inductive Request
  | save (scope name json : String)
  | remove (scope name : String)
  | clearScope (scope : String)
  | clear

namespace Request

/-- The scope that is written has no separator. -/
def Plain : Request → Prop
  | save scope _ _ | remove scope _ => Unseparated scope
  | clearScope _ | clear => True

instance : DecidablePred Plain
  | save .. | remove .. => inferInstanceAs (Decidable (Unseparated _))
  | clearScope _ | clear => .isTrue True.intro

/-- Does the request decide on what there is under a name of a scope? -/
def Touches (scope name : String) : Request → Prop
  | save scope' name' _ | remove scope' name' => scope' = scope ∧ name' = name
  | clearScope scope' => scope' = scope
  | clear => True

def apply (d : Database) : Request → Database
  | save scope name json => d.save scope name json
  | remove scope name => d.remove scope name
  | clearScope scope => (d.clearScope scope).1
  | clear => d.clear

end Request

/-- What a new database has come to after some requests, first to last. -/
def after (requests : List Request) : Database := requests.foldl Request.apply {}

/-- A text has been saved under a name of a scope, and no later request has touched it. -/
def Stands (requests : List Request) (scope name json : String) : Prop :=
  ∃ before later, requests = before ++ .save scope name json :: later ∧
    ∀ r ∈ later, ¬r.Touches scope name

/-- What stands after one more request. -/
theorem stands_concat {requests : List Request} {r : Request} {scope name json : String} :
    Stands (requests ++ [r]) scope name json ↔
      r = .save scope name json ∨ Stands requests scope name json ∧ ¬r.Touches scope name := by
  constructor
  · rintro ⟨before, later, heq, hlater⟩
    rcases List.eq_nil_or_concat' later with rfl | ⟨later, last, rfl⟩
    · exact .inl (List.append_inj_right' heq rfl |> List.singleton_inj.1)
    · have hsplit : requests ++ [r] = (before ++ .save scope name json :: later) ++ [last] := by
        rw [heq, List.append_assoc, List.cons_append]
      obtain ⟨rfl, hr⟩ := List.append_inj' hsplit rfl
      obtain rfl := List.singleton_inj.1 hr
      obtain ⟨hlater, hlast⟩ := List.forall_mem_append.1 hlater
      exact .inr ⟨⟨before, later, rfl, hlater⟩, hlast r List.mem_cons_self⟩
  · rintro (rfl | ⟨⟨before, later, rfl, hlater⟩, hr⟩)
    · exact ⟨requests, [], rfl, List.forall_mem_nil _⟩
    · refine ⟨before, later ++ [r], by rw [List.append_assoc, List.cons_append], ?_⟩
      exact List.forall_mem_append.2 ⟨hlater, List.forall_mem_singleton.2 hr⟩

/-- Rows in order, all of scopes without a separator. -/
structure Tidy (rows : List StoredVariable) : Prop where
  sorted : Sorted rows
  plain : ∀ v ∈ rows, Unseparated v.scope

namespace Tidy

variable {scope name json : String}

theorem filter (h : Tidy rows) (p : StoredVariable → Bool) : Tidy (rows.filter p) :=
  ⟨h.sorted.filter p, fun v hv => h.plain v (List.mem_of_mem_filter hv)⟩

/-- A plain request keeps the rows tidy. -/
theorem apply (h : Tidy d.rows) {r : Request} (hr : r.Plain) : Tidy (r.apply d).rows := by
  cases r with
  | save scope name json =>
    refine ⟨h.sorted.upsert _, fun v hv => ?_⟩
    rcases (mem_upsert h.sorted).1 hv with rfl | ⟨hv, -⟩
    · exact hr
    · exact h.plain v hv
  | remove | clearScope | clear => exact h.filter _

/-- Another key than that of a row is one of another place. -/
theorem key_ne_iff (h : Tidy rows) (hv : ⟨scope, name, json⟩ ∈ rows) {scope' name' : String}
    (hscope' : Unseparated scope') :
    keyOf scope name ≠ keyOf scope' name' ↔ ¬(scope' = scope ∧ name' = name) := by
  rw [Ne, keyOf_eq_of_unseparated (h.plain _ hv) hscope', eq_comm, eq_comm (a := name)]

/-- What a request does to a row. -/
theorem mem_apply (h : Tidy d.rows) {r : Request} (hr : r.Plain) :
    ⟨scope, name, json⟩ ∈ (r.apply d).rows ↔
      r = .save scope name json ∨ ⟨scope, name, json⟩ ∈ d.rows ∧ ¬r.Touches scope name := by
  cases r with
  | save scope' name' json' =>
    show _ ∈ upsert _ _ ↔ _
    rw [mem_upsert h.sorted]
    refine or_congr ?_ (and_congr_right fun hv => h.key_ne_iff hv hr)
    simp [eq_comm]
  | remove scope' name' =>
    have hsave : Request.remove scope' name' ≠ .save scope name json := by simp
    show _ ∈ d.rows.filter _ ↔ _
    rw [List.mem_filter, decide_eq_true_iff, or_iff_right hsave]
    exact and_congr_right fun hv => h.key_ne_iff hv hr
  | clearScope scope' =>
    have hsave : Request.clearScope scope' ≠ .save scope name json := by simp
    show _ ∈ (d.clearScope scope').1.rows ↔ _
    rw [rows_clearScope h.sorted, List.mem_filter, decide_eq_true_iff, or_iff_right hsave]
    exact and_congr_right fun _ => not_congr eq_comm
  | clear =>
    have hsave : Request.clear ≠ .save scope name json := by simp
    show _ ∈ d.clear.rows ↔ _
    rw [rows_clear h.sorted, or_iff_right hsave]
    exact iff_of_false List.not_mem_nil fun hkept => hkept.2 True.intro

end Tidy

/-- After plain requests the rows are tidy, by induction on the requests. -/
theorem tidy_after {requests : List Request} (h : ∀ r ∈ requests, r.Plain) :
    Tidy (after requests).rows :=
  List.foldlRecOn requests _ (motive := fun d : Database => Tidy d.rows)
    ⟨.nil, List.forall_mem_nil _⟩
    fun _ hd r hr => hd.apply (h r hr)

/-- The rows are what stands. -/
theorem mem_after {requests : List Request} (h : ∀ r ∈ requests, r.Plain)
    {scope name json : String} :
    ⟨scope, name, json⟩ ∈ (after requests).rows ↔ Stands requests scope name json := by
  induction requests using List.reverseRec with
  | nil => exact iff_of_false List.not_mem_nil fun ⟨before, later, heq, _⟩ => by simp at heq
  | append_singleton requests r ih =>
    obtain ⟨hrequests, hr⟩ := List.forall_mem_append.1 h
    have hlast : after (requests ++ [r]) = r.apply (after requests) := List.foldl_concat ..
    have hplain := hr r List.mem_cons_self
    rw [hlast, (tidy_after hrequests).mem_apply hplain, ih hrequests, stands_concat]

/-- After any requests on scopes without a separator, a scope is loaded with just the names that
stand there, each with the text saved last. To clear it removes these and tells their number, and
all other scopes are loaded as before, be they longer or shorter than it. -/
theorem loadScope_exact {requests : List Request} (h : ∀ r ∈ requests, r.Plain) (scope : String) :
    (Dict.keys ((after requests).loadScope scope)).Nodup ∧
    (∀ name json, (name, json) ∈ (after requests).loadScope scope ↔
      Stands requests scope name json) ∧
    ((after requests).clearScope scope).2 = ((after requests).loadScope scope).length ∧
    ∀ other, ((after requests).clearScope scope).1.loadScope other =
      if other = scope then [] else (after requests).loadScope other := by
  have hsorted := (tidy_after h).sorted
  refine ⟨?_, fun name json => ?_, clearScope_snd hsorted scope, fun other => ?_⟩
  · rw [loadScope_eq hsorted, Dict.keys, List.map_map]
    exact nodup_scopeRows hsorted scope
  · rw [mem_loadScope hsorted, mem_after h]
  · unfold loadScope
    rw [scopeRows_clearScope hsorted]
    split
    · rfl
    · rfl

/-- Profiles with names that are in front of each other. -/
def profiles : List Request :=
  [.save "profile:1" "x" "1", .save "profile:10" "x" "10", .save "profile:10" "y" "11",
    .remove "profile:10" "x", .save "profile:1" "x" "2", .save "profile" "a\x1fb" "0"]

/-- A profile that is saved twice, next to one whose name starts with its name. When it is cleared,
the other one has what it had. -/
theorem loadScope_exact_profiles :
    (∀ r ∈ profiles, r.Plain) ∧ ("x", "2") ∈ (after profiles).loadScope "profile:1" ∧
      ((after profiles).clearScope "profile:1").1.loadScope "profile:10" = [("y", "11")] := by
  have hplain : ∀ r ∈ profiles, r.Plain := by decide
  obtain ⟨-, hmem, -, hother⟩ := loadScope_exact hplain "profile:1"
  refine ⟨hplain, (hmem "x" "2").2 ⟨profiles.take 4, profiles.drop 5, rfl, ?_⟩,
    (hother "profile:10").trans ?_⟩
  · simp [profiles, Request.Touches]
  · decide

end Database

end Archipelago
