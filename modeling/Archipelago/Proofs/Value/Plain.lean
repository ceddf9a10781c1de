import Archipelago.Proofs.Basics
import Archipelago.Template.Node

/-!
# Values without missing data

JSON has no missing data and no object with a name twice. What comes out of a text, be it JSON or
the value of an attribute, is such a value all the way down.
-/

namespace Archipelago

/-! ## Maps out of lists -/

namespace Dict

universe u

variable {α : Type u}

theorem nodup_keys_merge {d : Dict α} (h : (keys d).Nodup) (entries : List (String × α)) :
    (keys (merge d entries)).Nodup := by
  induction entries generalizing d with
  | nil => exact h
  | cons e entries ih => exact ih (nodup_keys_insert h)

/-- A map that is made from a list has each name once. -/
theorem nodup_keys_ofList (entries : List (String × α)) : (keys (ofList entries)).Nodup :=
  nodup_keys_merge (d := []) List.nodup_nil entries

theorem mem_merge {d : Dict α} {entries : List (String × α)} {e : String × α}
    (h : e ∈ merge d entries) : e ∈ d ∨ e ∈ entries := by
  induction entries generalizing d with
  | nil => exact .inl h
  | cons e' entries ih =>
    rcases ih h with h | h
    · rcases mem_insert h with rfl | h
      · exact .inr List.mem_cons_self
      · exact .inl h
    · exact .inr (List.mem_cons_of_mem _ h)

theorem mem_of_mem_ofList {entries : List (String × α)} {e : String × α} (h : e ∈ ofList entries) :
    e ∈ entries := (mem_merge h).resolve_left List.not_mem_nil

theorem merge_of_nodup {d entries : Dict α} (h : (keys (d ++ entries)).Nodup) :
    merge d entries = d ++ entries := by
  induction entries generalizing d with
  | nil => exact (List.append_nil d).symm
  | cons e entries ih =>
    have hnew : e.1 ∉ keys d := by
      rw [keys, List.map_append, List.nodup_append] at h
      exact fun hmem => h.2.2 _ hmem _ List.mem_cons_self rfl
    show merge (insert d e.1 e.2) entries = _
    rw [insert_of_notMem hnew, ih]
    · rw [List.append_assoc]
      rfl
    · rwa [List.append_assoc]

/-- A list that has each name once is a map as it is. -/
theorem ofList_of_nodup {entries : Dict α} (h : (keys entries).Nodup) : ofList entries = entries :=
  merge_of_nodup (d := []) h

end Dict

namespace Value

/-- Nothing in it is undefined, and no object has a name twice. -/
inductive Plain : Value → Prop where
  | null : Plain null
  | bool (b : Bool) : Plain (bool b)
  | number (x : Float) : Plain (number x)
  | string (s : String) : Plain (string s)
  | array {items : List Value} : (∀ v ∈ items, v.Plain) → Plain (array items)
  | object {fields : Dict Value} :
      (Dict.keys fields).Nodup → (∀ f ∈ fields, f.2.Plain) → Plain (object fields)

mutual

theorem plain_ofJson? : (j : Json) → {v : Value} → ofJson? j = some v → v.Plain
  | .null, v, h => Option.some.inj h ▸ .null
  | .bool b, v, h => Option.some.inj h ▸ .bool b
  | .int _, v, h | .float _, v, h => Option.some.inj h ▸ .number _
  | .string s, v, h => Option.some.inj h ▸ .string s
  | .array items, v, h => by
    obtain ⟨vs, hvs, rfl⟩ := Option.map_eq_some_iff.1 h
    exact .array (plain_ofJsonItems? items hvs)
  | .object members, v, h => by
    obtain ⟨ms, hms, rfl⟩ := Option.map_eq_some_iff.1 h
    refine .object (Dict.nodup_keys_ofList ms) fun f hf => ?_
    exact plain_ofJsonMembers? members hms f (Dict.mem_of_mem_ofList hf)
  | .unreadable, v, h => nomatch h

theorem plain_ofJsonItems? : (js : List Json) → {vs : List Value} → ofJsonItems? js = some vs →
    ∀ v ∈ vs, v.Plain
  | [], vs, h => Option.some.inj h ▸ List.forall_mem_nil _
  | j :: js, vs, h => by
    obtain ⟨v, hv, h⟩ := Option.bind_eq_some_iff.1 h
    obtain ⟨vs, hvs, rfl⟩ := Option.map_eq_some_iff.1 h
    exact List.forall_mem_cons.2 ⟨plain_ofJson? j hv, plain_ofJsonItems? js hvs⟩

theorem plain_ofJsonMembers? : (js : List (String × Json)) → {ms : List (String × Value)} →
    ofJsonMembers? js = some ms → ∀ m ∈ ms, m.2.Plain
  | [], ms, h => Option.some.inj h ▸ List.forall_mem_nil _
  | (k, j) :: js, ms, h => by
    obtain ⟨v, hv, h⟩ := Option.bind_eq_some_iff.1 h
    obtain ⟨ms, hms, rfl⟩ := Option.map_eq_some_iff.1 h
    exact List.forall_mem_cons.2 ⟨plain_ofJson? j hv, plain_ofJsonMembers? js hms⟩

end

theorem plain_parse? {text : String} {v : Value} (h : parse? text = some v) : v.Plain := by
  obtain ⟨j, -, hj⟩ := Option.bind_eq_some_iff.1 h
  exact plain_ofJson? j hj

/-- Attribute text is never read as missing data. -/
theorem plain_ofLiteral (text : String) : (ofLiteral text).Plain := by
  unfold ofLiteral
  dsimp only
  generalize Text.trim text = trimmed
  split
  · exact .bool true
  · exact .bool false
  · exact .null
  · split
    · exact .number _
    · split
      · cases hparse : parse? trimmed with
        | none => exact .string text
        | some v => exact plain_parse? hparse
      · exact .string text

end Value

namespace VarType

theorem plain_zero {t : VarType} (h : t ≠ .computed) : t.zero.Plain := by
  cases t with
  | computed => exact absurd rfl h
  | number => exact .number _
  | string | urlParam => exact .string _
  | boolean => exact .bool _
  | array => exact .array (List.forall_mem_nil _)
  | object => exact .object List.nodup_nil (List.forall_mem_nil _)

theorem plain_parseInitial {t : VarType} {text : String} {v : Value}
    (h : t.parseInitial text = some v) : v.Plain := by
  cases t with
  | number =>
    obtain ⟨x, -, rfl⟩ := Option.map_eq_some_iff.1 h
    exact .number x
  | string | urlParam => exact Option.some.inj h ▸ .string text
  | boolean =>
    unfold parseInitial at h
    dsimp only at h
    split at h
    · exact Option.some.inj h ▸ .bool true
    · split at h
      · exact Option.some.inj h ▸ .bool false
      · cases h
  | array =>
    unfold parseInitial at h
    dsimp only at h
    split at h
    · rename_i items hparse
      exact Option.some.inj h ▸ Value.plain_parse? hparse
    · cases h
  | object =>
    unfold parseInitial at h
    dsimp only at h
    split at h
    · rename_i fields hparse
      exact Option.some.inj h ▸ Value.plain_parse? hparse
    · exact Option.some.inj h ▸ .null
    · cases h
  | computed => cases h

end VarType

end Archipelago
