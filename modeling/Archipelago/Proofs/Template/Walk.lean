import Archipelago.Template.Node

/-!
# The nodes of a tree

A walk lists a node before all that stands below it. A list of nodes splits into its first node,
what is below that, and the others, which is how everything that goes through a tree sees it.

Nodes that look alike can be told apart by their places: which child to take, and which child of
that one, down to the node. A place above another one is the beginning of it, and in the order of
the document the places of a tree come one behind the other.
-/

namespace Archipelago.Template.Node

theorem walk_eq (n : Node) : n.walk = n :: walkAll n.children := by
  obtain ⟨tag, attributes, children, span, bindings, island⟩ := n
  rfl

theorem walkAll_cons (n : Node) (ns : List Node) :
    walkAll (n :: ns) = n :: (walkAll n.children ++ walkAll ns) := by
  rw [walkAll, walk_eq, List.cons_append]

theorem walkAll_singleton (n : Node) : walkAll [n] = n.walk := by
  rw [walkAll, walkAll, List.append_nil]

@[simp] theorem walkAll_append (ns ms : List Node) :
    walkAll (ns ++ ms) = walkAll ns ++ walkAll ms := by
  induction ns with
  | nil => rfl
  | cons n ns ih => rw [List.cons_append, walkAll, walkAll, ih, List.append_assoc]

theorem forall_walk {P : Node → Prop} {n : Node} :
    (∀ m ∈ n.walk, P m) ↔ P n ∧ ∀ m ∈ walkAll n.children, P m := by
  rw [walk_eq, List.forall_mem_cons]

theorem forall_walkAll_cons {P : Node → Prop} {n : Node} {ns : List Node} :
    (∀ m ∈ walkAll (n :: ns), P m) ↔
      P n ∧ (∀ m ∈ walkAll n.children, P m) ∧ ∀ m ∈ walkAll ns, P m := by
  rw [walkAll_cons, List.forall_mem_cons, List.forall_mem_append]

theorem mem_walk_self (n : Node) : n ∈ n.walk := n.walk_eq ▸ List.mem_cons_self

theorem walkAll_children_subset (n : Node) : walkAll n.children ⊆ n.walk :=
  n.walk_eq ▸ List.subset_cons_self n _

theorem mem_walkAll_self {c : Node} {ns : List Node} (hc : c ∈ ns) : c ∈ walkAll ns := by
  induction ns with
  | nil => cases hc
  | cons n ns ih =>
    rcases List.mem_cons.1 hc with rfl | hc
    · exact List.mem_append_left _ c.mem_walk_self
    · exact List.mem_append_right _ (ih hc)

mutual

/-- What is below a node of a tree is below the root. -/
theorem walk_subset : (n : Node) → ∀ m ∈ n.walk, m.walk ⊆ n.walk
  | ⟨tag, attributes, children, span, bindings, island⟩, m, hm => by
    rw [walk_eq] at hm
    rcases List.mem_cons.1 hm with rfl | hm
    · exact List.Subset.refl _
    · exact List.Subset.trans (walkAll_subset children m hm) (List.subset_cons_self _ _)

theorem walkAll_subset : (ns : List Node) → ∀ m ∈ walkAll ns, m.walk ⊆ walkAll ns
  | [], m, hm => absurd hm List.not_mem_nil
  | n :: ns, m, hm => by
    rcases List.mem_append.1 hm with hm | hm
    · exact List.Subset.trans (walk_subset n m hm) (List.subset_append_left _ _)
    · exact List.Subset.trans (walkAll_subset ns m hm) (List.subset_append_right _ _)

end

/-- A tree holds the children of its nodes. -/
theorem mem_walk_of_child {root m c : Node} (hm : m ∈ root.walk) (hc : c ∈ m.children) :
    c ∈ root.walk :=
  walk_subset root m hm (walkAll_children_subset m (mem_walkAll_self hc))

/-! ## Places -/

/-- The node at a place. -/
def at? : Node → List Nat → Option Node
  | n, [] => some n
  | n, k :: path => n.children[k]?.bind fun c => c.at? path

theorem at?_concat (n : Node) (path : List Nat) (k : Nat) :
    n.at? (path ++ [k]) = (n.at? path).bind fun m => m.children[k]? := by
  induction path generalizing n with
  | nil =>
    show (n.children[k]?.bind fun c => some c) = n.children[k]?
    exact Option.bind_fun_some _
  | cons j path ih =>
    show (n.children[j]?.bind fun c => c.at? (path ++ [k])) = _
    rw [at?, Option.bind_assoc]
    exact congrArg _ (funext ih)

mutual

/-- All nodes with their places, in document order. -/
def places : Node → List (List Nat × Node)
  | ⟨tag, attributes, children, span, bindings, island⟩ =>
    ([], ⟨tag, attributes, children, span, bindings, island⟩) :: placesAll 0 children

/-- The nodes of a list and all below them, where the first one is the child of this number. -/
def placesAll (k : Nat) : List Node → List (List Nat × Node)
  | [] => []
  | n :: ns => n.places.map (fun x => (k :: x.1, x.2)) ++ placesAll (k + 1) ns

end

theorem places_eq (n : Node) : n.places = ([], n) :: placesAll 0 n.children := by
  obtain ⟨tag, attributes, children, span, bindings, island⟩ := n
  rfl

mutual

theorem map_snd_places : (n : Node) → n.places.map (·.2) = n.walk
  | ⟨tag, attributes, children, span, bindings, island⟩ => by
    rw [places_eq, walk_eq, List.map_cons, map_snd_placesAll 0 children]

theorem map_snd_placesAll (k : Nat) : (ns : List Node) →
    (placesAll k ns).map (·.2) = walkAll ns
  | [] => rfl
  | n :: ns => by
    rw [placesAll, walkAll, List.map_append, List.map_map, map_snd_placesAll (k + 1) ns]
    exact congrArg (· ++ walkAll ns) (map_snd_places n)

end

mutual

theorem mem_places : (n : Node) → ∀ {path : List Nat} {m : Node},
    (path, m) ∈ n.places ↔ n.at? path = some m
  | ⟨tag, attributes, children, span, bindings, island⟩, path, m => by
    rw [places_eq, List.mem_cons, mem_placesAll 0 children]
    cases path with
    | nil => simp [at?, eq_comm]
    | cons j path =>
      constructor
      · rintro (he | ⟨j', rest, he, hm⟩)
        · cases he
        · obtain ⟨rfl, rfl⟩ := List.cons.inj he
          rwa [Nat.zero_add]
      · exact fun hm => .inr ⟨j, path, by rw [Nat.zero_add], hm⟩

theorem mem_placesAll (k : Nat) : (ns : List Node) → ∀ {path : List Nat} {m : Node},
    (path, m) ∈ placesAll k ns ↔
      ∃ j rest, path = (k + j) :: rest ∧ (ns[j]?.bind fun c => c.at? rest) = some m
  | [], path, m => by simp [placesAll]
  | n :: ns, path, m => by
    rw [placesAll, List.mem_append, mem_placesAll (k + 1) ns]
    constructor
    · rintro (hn | ⟨j, rest, rfl, hm⟩)
      · obtain ⟨⟨rest, m'⟩, hmem, he⟩ := List.mem_map.1 hn
        obtain ⟨rfl, rfl⟩ := Prod.mk.inj he
        exact ⟨0, rest, rfl, (mem_places n).1 hmem⟩
      · exact ⟨j + 1, rest, by rw [Nat.add_right_comm, Nat.add_assoc], hm⟩
    · rintro ⟨j, rest, rfl, hm⟩
      cases j with
      | zero => exact .inl (List.mem_map.2 ⟨(rest, m), (mem_places n).2 hm, rfl⟩)
      | succ j => exact .inr ⟨j, rest, by rw [Nat.add_right_comm, Nat.add_assoc], hm⟩

end

theorem mem_walk_of_at? {n m : Node} {path : List Nat} (h : n.at? path = some m) : m ∈ n.walk :=
  n.map_snd_places ▸ List.mem_map.2 ⟨(path, m), (mem_places n).2 h, rfl⟩

mutual

/-- Places come in order. -/
theorem sorted_places : (n : Node) → (n.places.map (·.1)).Pairwise (· < ·)
  | ⟨tag, attributes, children, span, bindings, island⟩ => by
    rw [places_eq, List.map_cons, List.pairwise_cons]
    refine ⟨fun path hpath => ?_, sorted_placesAll 0 children⟩
    obtain ⟨⟨path, m⟩, hm, rfl⟩ := List.mem_map.1 hpath
    obtain ⟨j, rest, rfl, -⟩ := (mem_placesAll 0 children).1 hm
    exact List.nil_lt_cons _ _

theorem sorted_placesAll (k : Nat) : (ns : List Node) →
    ((placesAll k ns).map (·.1)).Pairwise (· < ·)
  | [] => .nil
  | n :: ns => by
    rw [placesAll, List.map_append, List.map_map, List.pairwise_append]
    refine ⟨?_, sorted_placesAll (k + 1) ns, fun path hpath other hother => ?_⟩
    · have hsorted := sorted_places n
      rw [List.pairwise_map] at hsorted ⊢
      exact hsorted.imp List.cons_lt_cons_self.2
    · obtain ⟨x, -, rfl⟩ := List.mem_map.1 hpath
      obtain ⟨⟨other, m⟩, hm, rfl⟩ := List.mem_map.1 hother
      obtain ⟨j, rest, rfl, -⟩ := (mem_placesAll (k + 1) ns).1 hm
      exact List.cons_lt_cons_iff.2 (.inl (by omega))

end

end Archipelago.Template.Node
