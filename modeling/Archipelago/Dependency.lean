import Archipelago.Dict

/-! # Order of dependent names -/

namespace Archipelago.Dependency

/-- What each name reads. Names that are read but are no keys impose no order. -/
abbrev Graph := Dict (List String)

namespace Graph

/-- The keys that a key reads. Names that are no keys do not count. -/
def reads (g : Graph) (name : String) : List String :=
  ((Dict.get? g name).getD []).filter (Dict.contains g ·)

/-- Runs `f` over the names, the result of each handed on to the next. -/
def visitAll (f : String → List String → Except String (List String)) :
    List String → List String → Except String (List String)
  | [], order => .ok order
  | name :: names, order => do visitAll f names (← f name order)

/-- Appends `name` to the order behind all it reads. `path` holds the names whose visit is under
way, at most as many as there are keys, which is what `room` counts down. -/
def visit (g : Graph) : (room : Nat) → (path : List String) → String → List String →
    Except String (List String)
  | room, path, name, order =>
    if name ∈ order then .ok order
    else if name ∈ path then .error name
    else match room with
      | 0 => .error name
      | room + 1 => do
        let order ← visitAll (visit g room (name :: path)) (g.reads name) order
        .ok (order ++ [name])

/-- All keys, each behind the keys it reads, or a key on a cycle. -/
def order (g : Graph) : Except String (List String) :=
  visitAll (g.visit g.length []) (Dict.keys g) []

/-! ## Names that depend on themselves -/

/-- The keys that have not been seen. -/
def unseen (g : Graph) (seen : List String) : List String := (Dict.keys g).filter (· ∉ seen)

theorem length_filter_cons_lt {names seen : List String} {name : String}
    (h : name ∈ names) (hs : name ∉ seen) :
    (names.filter (· ∉ name :: seen)).length < (names.filter (· ∉ seen)).length := by
  induction names with
  | nil => simp at h
  | cons k ks ih =>
    have le : (ks.filter (· ∉ name :: seen)).length ≤ (ks.filter (· ∉ seen)).length := by
      rw [← List.countP_eq_length_filter, ← List.countP_eq_length_filter]
      exact List.countP_mono_left fun x _ hx => by simp_all
    by_cases hk : k = name
    · subst hk
      rw [List.filter_cons_of_neg (by simp), List.filter_cons_of_pos (by simpa using hs)]
      exact Nat.lt_succ_of_le le
    · have lt := ih (by simpa [Ne.symm hk] using h)
      by_cases hks : k ∈ seen
      · rwa [List.filter_cons_of_neg (by simp [hks]), List.filter_cons_of_neg (by simp [hks])]
      · rw [List.filter_cons_of_pos (by simp [hk, hks]),
          List.filter_cons_of_pos (by simpa using hks)]
        exact Nat.succ_lt_succ lt

theorem length_unseen_cons_lt {g : Graph} {seen : List String} {name : String}
    (h : name ∈ Dict.keys g) (hs : name ∉ seen) :
    (g.unseen (name :: seen)).length < (g.unseen seen).length :=
  length_filter_cons_lt h hs

/-- Does a walk along what the waiting names read come to `goal`? -/
def reaches (g : Graph) (goal : String) (seen : List String) : (waiting : List String) → Bool
  | [] => false
  | name :: waiting =>
    if name = goal then true
    else if name ∈ seen then reaches g goal seen waiting
    else
      match _h : Dict.get? g name with
      | none => reaches g goal seen waiting
      | some deps => reaches g goal (name :: seen) (deps ++ waiting)
termination_by waiting => ((g.unseen seen).length, waiting.length)
decreasing_by
  · exact Prod.Lex.right _ (by simp)
  · exact Prod.Lex.right _ (by simp)
  · exact Prod.Lex.left _ _ (length_unseen_cons_lt (Dict.mem_keys_of_get? _h) ‹_›)

/-- The keys that reach themselves. -/
def cyclic (g : Graph) : List String :=
  (Dict.keys g).filter fun name => g.reaches name [] ((Dict.get? g name).getD [])

end Graph

end Archipelago.Dependency
