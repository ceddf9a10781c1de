import Archipelago.Proofs.Compile.Chains

/-!
# Marks on a compiled tree

An island is the outermost node that is to be brought to life, on its own account or as a loop
around one that is. So marks never lie inside one another, nor in a loop without a mark, and nothing
that can change is left out. Nodes may look alike: it is their places that tell them apart.
-/

namespace Archipelago

open Template (Node)

namespace Template.Node

/-! ## Nodes that are alive -/

/-- The node does something, takes input, is drawn for the resident, or looks at one of these names;
a chain looks for its branches. -/
inductive Active (names : List String) (n : Node) : Prop where
  | acts : n.bindings ≠ [] → Active names n
  | input : n.isDsl .textInput = true ∨ n.isDsl .checkbox = true → Active names n
  | resident {t : ResidentTag} : n.isDsl (.resident t) = true → Active names n
  | reads {name : String} : name ∈ n.reads → name ∈ names → Active names n

/-- A branch that looks at one of these names. -/
def ActiveBranch (names : List String) (n : Node) : Prop :=
  n.isBranch = true ∧ ∃ name ∈ n.conditionReads, name ∈ names

/-- The node at a place is marked, or one above it is. -/
def Covered (root : Node) (place : List Nat) : Prop :=
  ∃ above, above <+: place ∧ ∃ n, root.at? above = some n ∧ n.island.isSome = true

theorem covered_nil {root : Node} (h : root.island.isSome = true) (place : List Nat) :
    root.Covered place := ⟨[], List.nil_prefix, root, rfl, h⟩

theorem Covered.child {root c : Node} {k : Nat} {place : List Nat} (h : c.Covered place)
    (hc : root.children[k]? = some c) : root.Covered (k :: place) := by
  obtain ⟨above, hprefix, n, hn, hmarked⟩ := h
  refine ⟨k :: above, List.cons_prefix_cons.2 ⟨rfl, hprefix⟩, n, ?_, hmarked⟩
  rw [at?, hc]
  exact hn

theorem Covered.below {root : Node} {place more : List Nat} (h : root.Covered place)
    (hmore : place <+: more) : root.Covered more := by
  obtain ⟨above, hprefix, hn⟩ := h
  exact ⟨above, hprefix.trans hmore, hn⟩

theorem mem_reads_of_branch {n c : Node} (hn : n.isDsl .ifChain = true) (hc : c ∈ n.children)
    {name : String} (h : name ∈ c.conditionReads) : name ∈ n.reads := by
  have hdsl : n.dsl? = some .ifChain := of_decide_eq_true hn
  unfold reads
  rw [hdsl]
  exact List.mem_flatMap.2 ⟨c, hc, h⟩

/-- Branches are in chains, so what covers the chains covers the branches. -/
theorem covered_branch {names : List String} {root : Node} (hroot : root.isBranch = false)
    (hseats : ∀ n ∈ root.walk, n.Seats)
    (hcovered : ∀ place n, root.at? place = some n → n.Active names → root.Covered place)
    {place : List Nat} {b : Node} (hb : root.at? place = some b) (h : b.ActiveBranch names) :
    root.Covered place := by
  obtain ⟨hbranch, name, hread, hname⟩ := h
  rcases place.eq_nil_or_concat' with rfl | ⟨above, k, rfl⟩
  · obtain rfl := Option.some.inj hb
    exact absurd (hroot.symm.trans hbranch) Bool.false_ne_true
  · rw [at?_concat] at hb
    obtain ⟨n, hn, hb⟩ := Option.bind_eq_some_iff.1 hb
    have hmem := List.mem_of_getElem? hb
    have hchain : n.isDsl .ifChain = true := by
      by_contra hother
      have hseat := hseats n (mem_walk_of_at? hn) (Bool.eq_false_iff.2 hother) b hmem
      exact Bool.false_ne_true (hseat.symm.trans hbranch)
    have hactive : n.Active names := .reads (mem_reads_of_branch hchain hmem hread) hname
    exact (hcovered above n hn hactive).below (List.prefix_append _ _)

end Template.Node

namespace Island

section

variable {names : List String}

/-- A node is brought to life on its own account, or as a loop for one below it. -/
theorem isInteractive_iff {n : Node} :
    isInteractive names n = true ↔
      n.Active names ∨ n.isDsl .forEach = true ∧ anyInteractive names n.children = true := by
  obtain ⟨tag, attributes, children, span, bindings, island⟩ := n
  have hreads : ∀ n : Node, readsAny names n = true → n.Active names := fun n h => by
    obtain ⟨name, hread, hname⟩ := List.any_eq_true.1 h
    exact .reads hread (of_decide_eq_true hname)
  have hany : ∀ {n : Node} {name : String}, name ∈ n.reads → name ∈ names →
      readsAny names n = true := fun hread hname =>
    List.any_eq_true.2 ⟨_, hread, decide_eq_true hname⟩
  unfold isInteractive
  rw [Bool.or_eq_true_iff]
  constructor
  · rintro (hacts | h)
    · refine .inl (.acts fun hnone => ?_)
      obtain rfl : bindings = [] := hnone
      cases hacts
    · cases tag with
      | dsl t =>
        cases t with
        | showVar | ifChain | switch => exact .inl (hreads _ h)
        | forEach => exact (Bool.or_eq_true_iff.1 h).imp (hreads _) fun hc => ⟨rfl, hc⟩
        | textInput => exact .inl (.input (.inl rfl))
        | checkbox => exact .inl (.input (.inr rfl))
        | resident t => exact .inl (.resident (t := t) (decide_eq_true rfl))
        | _ => cases h
      | _ => cases h
  · rintro (hactive | ⟨hloop, hc⟩)
    · cases hactive with
      | acts hacts => exact .inl (by simpa using hacts)
      | input h =>
        rcases h with h | h
        · obtain rfl := Node.tag_of_isDsl h
          exact .inr rfl
        · obtain rfl := Node.tag_of_isDsl h
          exact .inr rfl
      | resident h =>
        obtain rfl := Node.tag_of_isDsl h
        exact .inr rfl
      | reads hread hname =>
        right
        cases tag with
        | dsl t =>
          cases t with
          | showVar | ifChain | switch => exact hany hread hname
          | forEach => exact Bool.or_eq_true_iff.2 (.inl (hany hread hname))
          | textInput | checkbox => rfl
          | _ => exact absurd hread List.not_mem_nil
        | _ => exact absurd hread List.not_mem_nil
    · obtain rfl := Node.tag_of_isDsl hloop
      exact .inr (Bool.or_eq_true_iff.2 (.inr hc))

mutual

/-- Something is alive in a tree if it is so at the root or below it. -/
theorem exists_active_walk : (n : Node) → ((∃ m ∈ n.walk, m.Active names) ↔
    isInteractive names n = true ∨ anyInteractive names n.children = true)
  | ⟨tag, attributes, children, span, bindings, island⟩ => by
    rw [isInteractive_iff, Node.walk_eq]
    simp only [List.mem_cons, or_and_right, exists_or, exists_eq_left]
    rw [exists_active_walkAll children]
    constructor
    · exact fun h => h.imp_left .inl
    · rintro ((h | h) | h)
      · exact .inl h
      · exact .inr h.2
      · exact .inr h

theorem exists_active_walkAll : (ns : List Node) →
    ((∃ m ∈ Node.walkAll ns, m.Active names) ↔ anyInteractive names ns = true)
  | [] => by simp [Node.walkAll, anyInteractive]
  | ⟨tag, attributes, children, span, bindings, island⟩ :: ns => by
    have hhead := exists_active_walk ⟨tag, attributes, children, span, bindings, island⟩
    unfold anyInteractive Node.walkAll
    simp only [List.mem_append, or_and_right, exists_or, Bool.or_eq_true]
    rw [hhead, exists_active_walkAll ns]

end

end

namespace Survey

/-! ## What a mark leaves alone -/

section

variable {n m : Node} {names : List String}

theorem Marked.conditionReads (h : Marked n m) : m.conditionReads = n.conditionReads := by
  simp only [Node.conditionReads, h.attr?]

theorem Marked.inputVar? (h : Marked n m) : m.inputVar? = n.inputVar? := by
  unfold Node.inputVar?
  rw [h.dsl?, h.attr?]

/-- What each node of a list gives, where nodes that are marked give the same. -/
theorem flatMap_eq {α : Type} {R : Node → Node → Prop} {ns ms : List Node}
    (h : List.Forall₂ R ns ms)
    {f : Node → List α} (hf : ∀ n m, R n m → f m = f n) : ms.flatMap f = ns.flatMap f := by
  induction h with
  | nil => rfl
  | cons hnm _ ih => rw [List.flatMap_cons, List.flatMap_cons, hf _ _ hnm, ih]

namespace Alike

theorem reads (h : Alike n m) : m.reads = n.reads := by
  unfold Node.reads
  rw [h.dsl?, h.attr?, h.attr?, flatMap_eq h.children fun _ _ hc => hc.conditionReads]

theorem active (h : Alike n m) (hm : m.Active names) : n.Active names := by
  cases hm with
  | acts hacts => exact .acts (h.bindings ▸ hacts)
  | input hinput => exact .input (by rwa [h.isDsl, h.isDsl] at hinput)
  | resident hresident => exact .resident (h.isDsl _ ▸ hresident)
  | reads hread hname => exact .reads (h.reads ▸ hread) hname

theorem seats (h : Alike n m) (hn : n.Seats) : m.Seats := by
  intro hchain c hc
  obtain ⟨c', hc', hmarked⟩ := exists_of_forall₂ h.children.flip c hc
  rw [hmarked.isBranch]
  exact hn (h.isDsl _ ▸ hchain) c' hc'

end Alike

end

variable (s : Survey)

theorem writtenVars_mark (found : List Island) (n : Node) :
    Template.writtenVars (s.mark found n).1 = Template.writtenVars n :=
  flatMap_eq (s.marked_walk found n) fun _ _ h => by rw [h.bindings, h.inputVar?]

/-- What can change is the same with marks as without them. -/
theorem reactive_mark (found : List Island) (n : Node) (decls : List VariableDecl) :
    Template.reactive (s.mark found n).1 decls = Template.reactive n decls := by
  unfold Template.reactive
  rw [writtenVars_mark]

theorem seats_mark (found : List Island) {n : Node} (h : ∀ m ∈ n.walk, m.Seats) :
    ∀ m ∈ (s.mark found n).1.walk, m.Seats := by
  intro m hm
  obtain ⟨n', hn', halike⟩ := exists_of_forall₂ (s.alike_walk found n).flip m hm
  exact halike.seats (h n' hn')

/-! ## Marks and islands -/

mutual

/-- The nodes of the islands are the marked ones, in the order of the document. -/
theorem marks_mark (found : List Island) : (n : Node) → (∀ m ∈ n.walk, m.island = none) →
    ∃ new, (s.mark found n).2 = found ++ new ∧
      (s.mark found n).1.walk.filter (·.island.isSome) = new.map (·.node)
  | ⟨tag, attributes, children, span, bindings, island⟩, hbare => by
    obtain ⟨hroot, hbelow⟩ := Node.forall_walk.1 hbare
    rw [mark_eq]
    split
    · refine ⟨_, rfl, ?_⟩
      have hnone : (Node.walkAll children).filter (·.island.isSome) = [] :=
        List.filter_eq_nil_iff.2 fun m hm => by rw [hbelow m hm]; exact Bool.false_ne_true
      rw [Node.walk_eq, List.filter_cons_of_pos rfl]
      exact congrArg _ hnone
    · obtain rfl : island = none := hroot
      obtain ⟨new, hnew, hmarks⟩ := marks_markAll found children hbelow
      refine ⟨new, hnew, ?_⟩
      rw [Node.walk_eq, List.filter_cons_of_neg Bool.false_ne_true]
      exact hmarks

theorem marks_markAll (found : List Island) : (ns : List Node) →
    (∀ m ∈ Node.walkAll ns, m.island = none) → ∃ new, (s.markAll found ns).2 = found ++ new ∧
      (Node.walkAll (s.markAll found ns).1).filter (·.island.isSome) = new.map (·.node)
  | [], _ => ⟨[], (List.append_nil _).symm, rfl⟩
  | n :: ns, hbare => by
    obtain ⟨hhead, htail⟩ := List.forall_mem_append.1 hbare
    obtain ⟨first, hfirst, hmarks⟩ := marks_mark found n hhead
    obtain ⟨more, hmore, hmarks'⟩ := marks_markAll (s.mark found n).2 ns htail
    refine ⟨first ++ more, ?_, ?_⟩
    · unfold markAll
      dsimp only
      rw [hmore, hfirst, List.append_assoc]
    · unfold markAll
      rw [Node.walkAll, List.filter_append, List.map_append, hmarks, hmarks']

end

/-! ## Marks are outermost -/

/-- Nothing is marked below such a node. -/
def Closed (n : Node) : Prop :=
  n.island.isSome = true ∨ n.isDsl .forEach = true → ∀ m ∈ Node.walkAll n.children, m.island = none

mutual

/-- A tree without marks is closed once it is marked. A node that gets no mark is a loop, and
nothing in a loop is brought to life. -/
theorem closed_mark (found : List Island) : (n : Node) → (∀ m ∈ n.walk, m.island = none) →
    ∀ m ∈ (s.mark found n).1.walk, Closed m
  | ⟨tag, attributes, children, span, bindings, island⟩, hbare => by
    obtain ⟨hroot, hbelow⟩ := Node.forall_walk.1 hbare
    rw [mark_eq, Node.forall_walk]
    split
    · refine ⟨fun _ => hbelow, fun m hm _ c hc => hbelow c ?_⟩
      exact Node.walkAll_subset children m hm (Node.walkAll_children_subset m hc)
    · rename_i hinert
      refine ⟨fun hclosed => ?_, closed_markAll found children hbelow⟩
      obtain rfl : island = none := hroot
      have hloop := hclosed.resolve_left nofun
      have hnone := s.anyInteractive_children (Bool.eq_false_iff.2 hinert) hloop
      rw [s.markAll_of_not_interactive found children hnone]
      exact hbelow

theorem closed_markAll (found : List Island) : (ns : List Node) →
    (∀ m ∈ Node.walkAll ns, m.island = none) →
      ∀ m ∈ Node.walkAll (s.markAll found ns).1, Closed m
  | [], _ => List.forall_mem_nil _
  | n :: ns, hbare => by
    obtain ⟨hhead, htail⟩ := List.forall_mem_append.1 hbare
    unfold markAll
    rw [Node.walkAll]
    exact List.forall_mem_append.2 ⟨closed_mark found n hhead, closed_markAll _ ns htail⟩

end

/-! ## Nothing is left out -/

mutual

/-- What is alive in the marked tree is at a mark or below one. -/
theorem covered_mark (found : List Island) : (n : Node) → ∀ place m,
    (s.mark found n).1.at? place = some m → m.Active s.reactive → (s.mark found n).1.Covered place
  | ⟨tag, attributes, children, span, bindings, island⟩, place, m, hm, hactive => by
    have halike := s.alike_mark found ⟨tag, attributes, children, span, bindings, island⟩
    rw [mark_eq] at hm halike ⊢
    split at hm
    · rename_i hinteractive
      rw [if_pos hinteractive]
      exact Node.covered_nil rfl place
    · rename_i hinert
      rw [if_neg hinert] at halike ⊢
      cases place with
      | nil =>
        obtain rfl := Option.some.inj hm
        exact absurd (isInteractive_iff.2 (.inl (halike.active hactive))) hinert
      | cons k place =>
        obtain ⟨c, hc, hm⟩ := Option.bind_eq_some_iff.1 hm
        exact (covered_markAll found children k c hc place m hm hactive).child hc

theorem covered_markAll (found : List Island) : (ns : List Node) →
    ∀ (k : Nat) (c : Node), (s.markAll found ns).1[k]? = some c →
      ∀ place m, c.at? place = some m → m.Active s.reactive → c.Covered place
  | [], _, _, hc, _, _, _, _ => by cases hc
  | n :: ns, k, c, hc, place, m, hm, hactive => by
    unfold markAll at hc
    cases k with
    | zero =>
      obtain rfl := Option.some.inj hc
      exact covered_mark found n place m hm hactive
    | succ k => exact covered_markAll _ ns k c hc place m hm hactive

end

end Survey

/-! ## Islands in their places -/

/-- Islands as they lie in a tree where these names can change. -/
structure Laid (names : List String) (root : Node) (islands : List Island) : Prop where
  distinct : Distinct islands
  /-- The islands are listed as their nodes stand in the document. -/
  ordered : ∃ places : List (List Nat), places.Pairwise (· < ·) ∧
    List.Forall₂ (fun place i => root.at? place = some i.node) places islands
  /-- The name of an island is on one node. -/
  single : ∀ i ∈ islands, ∃! place, (root.at? place).bind (·.island) = some i.id
  marked : ∀ place n id, root.at? place = some n → n.island = some id →
    ∃ i ∈ islands, i.id = id ∧ i.node = n
  outermost : ∀ n ∈ root.walk, n.island.isSome = true ∨ n.isDsl .forEach = true →
    ∀ m ∈ Node.walkAll n.children, m.island = none
  covered : ∀ place n, root.at? place = some n → n.Active names ∨ n.ActiveBranch names →
    root.Covered place
  /-- No island is there for nothing. -/
  needed : ∀ i ∈ islands, i.node.Active names ∨
    i.node.isDsl .forEach = true ∧ ∃ m ∈ Node.walkAll i.node.children, m.Active names

section

variable {root : Node} {islands : List Island}

/-- The marked nodes of a tree with their places, in the order of the document. -/
def marks (root : Node) : List (List Nat × Node) := root.places.filter (·.2.island.isSome)

theorem mem_marks {place : List Nat} {n : Node} :
    (place, n) ∈ marks root ↔ root.at? place = some n ∧ n.island.isSome = true := by
  rw [marks, List.mem_filter, Node.mem_places]

theorem map_snd_marks : (marks root).map (·.2) = root.walk.filter (·.island.isSome) := by
  rw [← Node.map_snd_places, List.filter_map]
  rfl

variable (hmarks : (marks root).map (·.2) = islands.map (·.node))
include hmarks

theorem ordered_of_marks : ∃ places : List (List Nat), places.Pairwise (· < ·) ∧
    List.Forall₂ (fun place i => root.at? place = some i.node) places islands := by
  refine ⟨(marks root).map (·.1), ?_, List.forall₂_map_left_iff.2 ?_⟩
  · exact (Node.sorted_places root).sublist (List.filter_sublist.map _)
  · have hnodes : List.Forall₂ (fun x i => x.2 = i.node) (marks root) islands :=
      List.forall₂_map_left_iff.1 (List.forall₂_map_right_iff.1
        (List.forall₂_eq_eq_eq.symm ▸ hmarks))
    have hplaces : ∀ x ∈ marks root, root.at? x.1 = some x.2 := fun x hx => (mem_marks.1 hx).1
    refine ((List.forall₂_and_left _ _).2 ⟨hplaces, hnodes⟩).imp ?_
    rintro x i ⟨hat, hnode⟩
    rw [hat, hnode]

variable (hids : ∀ i ∈ islands, i.node.island = some i.id)
include hids

theorem exists_of_mark {place : List Nat} {n : Node} {id : String} (hn : root.at? place = some n)
    (hid : n.island = some id) : ∃ i ∈ islands, i.id = id ∧ i.node = n := by
  have hmem : n ∈ islands.map (·.node) :=
    hmarks ▸ List.mem_map.2 ⟨_, mem_marks.2 ⟨hn, hid ▸ rfl⟩, rfl⟩
  obtain ⟨i, hi, rfl⟩ := List.mem_map.1 hmem
  exact ⟨i, hi, Option.some.inj ((hids i hi).symm.trans hid), rfl⟩

/-- Where names are not used twice, marks tell nodes apart. -/
theorem nodup_marks (hdistinct : Distinct islands) :
    ((marks root).map fun x => x.2.island).Nodup := by
  have hnames : (marks root).map (fun x => x.2.island) = (islands.map (·.id)).map some := by
    show (marks root).map ((·.island) ∘ (·.2)) = _
    rw [← List.map_map, hmarks, List.map_map, List.map_map]
    exact List.map_congr_left hids
  rw [hnames]
  exact hdistinct.map (Option.some_injective _)

theorem single_of_marks (hdistinct : Distinct islands) {i : Island} (hi : i ∈ islands) :
    ∃! place, (root.at? place).bind (·.island) = some i.id := by
  have hmem : i.node ∈ (marks root).map (·.2) := hmarks ▸ List.mem_map_of_mem hi
  obtain ⟨⟨place, n⟩, hx, hnode⟩ := List.mem_map.1 hmem
  have hid : n.island = some i.id := (congrArg _ hnode).trans (hids i hi)
  refine ⟨place, ?_, fun other hother => ?_⟩
  · dsimp only
    rw [(mem_marks.1 hx).1]
    exact hid
  · obtain ⟨m, hm, hmid⟩ := Option.bind_eq_some_iff.1 hother
    have hx' : (other, m) ∈ marks root := mem_marks.2 ⟨hm, hmid ▸ rfl⟩
    have hsame := List.inj_on_of_nodup_map (nodup_marks hmarks hids hdistinct) hx' hx
      (hmid.trans hid.symm)
    exact congrArg Prod.fst hsame

end

namespace Survey

variable (s : Survey)

/-- A node is made an island for what it is, or for what is below it. -/
theorem needed_islandOf (used : List String) {n : Node} (h : isInteractive s.reactive n = true) :
    (s.islandOf used n).node.Active s.reactive ∨ (s.islandOf used n).node.isDsl .forEach = true ∧
      ∃ m ∈ Node.walkAll (s.islandOf used n).node.children, m.Active s.reactive := by
  have halike : Alike (s.islandOf used n).node n := ⟨⟨rfl, rfl, rfl, rfl⟩, forall₂_marked_refl _⟩
  rcases isInteractive_iff.1 h with hactive | ⟨hloop, hany⟩
  · exact .inl (halike.active hactive)
  · exact .inr ⟨hloop, (exists_active_walkAll n.children).2 hany⟩

/-- The islands of a tree that has no mark and no branch but in chains, as they lie in the marked
tree. -/
theorem laid_mark {root : Node} (hroot : root.isBranch = false)
    (hbare : ∀ m ∈ root.walk, m.island = none) (hseats : ∀ m ∈ root.walk, m.Seats)
    (hdistinct : Distinct (s.mark [] root).2) :
    Laid s.reactive (s.mark [] root).1 (s.mark [] root).2 := by
  have hfrom := s.from_of_mem_mark (List.forall_mem_nil _) root (List.Subset.refl _)
  have hids : ∀ i ∈ (s.mark [] root).2, i.node.island = some i.id := fun i hi => by
    obtain ⟨n, -, -, used, rfl⟩ := hfrom i hi
    rfl
  obtain ⟨new, hnew, hmarks⟩ := s.marks_mark [] root hbare
  rw [← map_snd_marks, show new = (s.mark [] root).2 from hnew.symm] at hmarks
  have hcovered := s.covered_mark [] root
  have hbranch : (s.mark [] root).1.isBranch = false := (s.marked_mark [] root).isBranch.trans hroot
  exact {
    distinct := hdistinct
    ordered := ordered_of_marks hmarks
    single := fun i hi => single_of_marks hmarks hids hdistinct hi
    marked := fun place n id hn hid => exists_of_mark hmarks hids hn hid
    outermost := s.closed_mark [] root hbare
    covered := fun place n hn h => h.elim (hcovered place n hn)
      (Node.covered_branch hbranch (s.seats_mark [] hseats) hcovered hn)
    needed := fun i hi => by
      obtain ⟨n, -, hinteractive, used, rfl⟩ := hfrom i hi
      exact s.needed_islandOf used hinteractive }

end Survey

end Island

namespace Compile

/-- Be there errors or not, the islands of a compilation have names of their own, each of which
marks one node, and are listed in the order of the document; marks lie neither below one another nor
in a loop that has none, and what does something, takes input, is drawn for the resident or looks at
what can change is at a mark or below one. A text in memory is shorter than `2 ^ 63` bytes. -/
theorem laid_of_compile (c : Config) (src : String) (hsize : src.utf8ByteSize < 2 ^ 63) :
    Island.Laid (Template.reactive (compile c src).root (compile c src).decls)
      (compile c src).root (compile c src).islands := by
  have hdistinct := distinct_islands (c := c) hsize
  obtain ⟨nodes, hmakes, hextract⟩ := exists_makes c src
  obtain ⟨places, hformed, -⟩ := hmakes.formed
  have hseated := hmakes.seated
  let root := Node.fragment nodes
  let s : Island.Survey := ⟨(compile c src).id, Template.reactive root (compile c src).decls⟩
  rw [show (compile c src).islands = (s.mark [] root).2 from congrArg Prod.snd hextract]
    at hdistinct ⊢
  rw [show (compile c src).root = (s.mark [] root).1 from congrArg Prod.fst hextract,
    s.reactive_mark]
  refine s.laid_mark rfl ?_ ?_ hdistinct
  · exact Node.forall_walk.2 ⟨rfl, fun m hm => (hformed.nodes m hm).unmarked⟩
  · exact Node.forall_walk.2 ⟨fun _ => hseated.plain, hseated.below⟩

/-- Two fields that look the same, a component in a loop in a loop, and what depends on the
fields. -/
def rosterMarkup : String :=
  "<Var name=\"on\" type=\"boolean\"/><Var name=\"xs\" type=\"array\" initial=\"[1]\"/>"
    ++ "<Checkbox var=\"on\"/><Checkbox var=\"on\"/>"
    ++ "<ForEach var=\"xs\"><ForEach var=\"xs\"><Bio/></ForEach></ForEach><If var=\"on\">on</If>"

/-- Four islands: the fields, the outer one of the loops, and the branch. The component in the loops
is none by itself. -/
theorem laid_roster :
    (compile {} rosterMarkup).islands.map (·.component) =
        ["Checkbox", "Checkbox", "ForEach", "IfChain"] ∧
      Island.Laid (Template.reactive (compile {} rosterMarkup).root (compile {} rosterMarkup).decls)
        (compile {} rosterMarkup).root (compile {} rosterMarkup).islands :=
  ⟨by decide +kernel, laid_of_compile {} rosterMarkup (by decide +kernel)⟩

end Compile

end Archipelago
