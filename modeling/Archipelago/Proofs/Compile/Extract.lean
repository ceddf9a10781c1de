import Archipelago.Proofs.Compile.Formed
import Archipelago.Proofs.Compile.Sound
import Archipelago.Proofs.Hash

/-!
# The islands of a compiled template

Islands are found one behind the other, no more of them than a tree is wide, and each gets a name
that none before it has. A template that compiles from a text of a size that memory has is never so
wide that the names run out.
-/

namespace Archipelago

open Template (Node)

/-- Islands with names of their own. -/
def Island.Distinct (islands : List Island) : Prop := (islands.map (·.id)).Nodup

theorem Island.Distinct.of_append {islands more : List Island}
    (h : Island.Distinct (islands ++ more)) : Island.Distinct islands ∧ Island.Distinct more := by
  unfold Island.Distinct at *
  rw [List.map_append] at h
  exact ⟨h.of_append_left, h.of_append_right⟩

namespace Island.Survey

variable (s : Survey)

/-- The node of an island is marked with the name of the island. -/
theorem node_islandOf (used : List String) (n : Node) :
    (s.islandOf used n).node = { n with island := some (s.islandOf used n).id } := rfl

theorem component_islandOf (used : List String) (n : Node) :
    (s.islandOf used n).component = n.tag.name := rfl

/-! ## Islands are added -/

mutual

/-- Islands are put behind those found before, one for each branch at the most. -/
theorem exists_mark (found : List Island) : (n : Node) →
    ∃ new, (s.mark found n).2 = found ++ new ∧ new.length ≤ n.width
  | ⟨tag, attributes, children, span, bindings, island⟩ => by
    rw [mark_eq, Node.width_eq]
    split
    · exact ⟨_, rfl, Nat.le_max_left _ _⟩
    · obtain ⟨new, hnew, hlength⟩ := exists_markAll found children
      exact ⟨new, hnew, Nat.le_trans hlength (Nat.le_max_right _ _)⟩

theorem exists_markAll (found : List Island) : (ns : List Node) →
    ∃ new, (s.markAll found ns).2 = found ++ new ∧ new.length ≤ Node.widthAll ns
  | [] => ⟨[], (List.append_nil _).symm, Nat.le_refl _⟩
  | n :: ns => by
    obtain ⟨first, hfirst, hlength⟩ := exists_mark found n
    obtain ⟨more, hmore, hlength'⟩ := exists_markAll (found ++ first) ns
    refine ⟨first ++ more, ?_, ?_⟩
    · unfold markAll
      dsimp only
      rw [hfirst, hmore, List.append_assoc]
    · rw [List.length_append, Node.widthAll]
      exact Nat.add_le_add hlength hlength'

end

/-- The islands of a list are those of its head and then those of its tail. -/
theorem exists_markAll_cons {found new : List Island} {n : Node} {ns : List Node}
    (h : (s.markAll found (n :: ns)).2 = found ++ new) :
    ∃ first more, (s.mark found n).2 = found ++ first ∧
      (s.markAll (s.mark found n).2 ns).2 = (s.mark found n).2 ++ more ∧ first ++ more = new := by
  obtain ⟨first, hfirst, -⟩ := s.exists_mark found n
  obtain ⟨more, hmore, -⟩ := s.exists_markAll (s.mark found n).2 ns
  refine ⟨first, more, hfirst, hmore, ?_⟩
  have hall := hmore.symm.trans h
  rw [hfirst, List.append_assoc] at hall
  exact List.append_cancel_left hall

/-! ## Names are unique -/

theorem distinct_islandOf {found : List Island} (h : Distinct found) (n : Node)
    (hsize : found.length + 1 < 2 ^ 64) :
    Distinct (found ++ [s.islandOf (found.map (·.id)) n]) := by
  unfold Distinct at *
  rw [List.map_append, List.map_singleton, List.nodup_append]
  refine ⟨h, List.nodup_singleton _, fun id hid other ho => ?_⟩
  rw [List.mem_singleton.1 ho]
  rintro rfl
  exact freshId_notMem (by rwa [List.length_map]) hid

mutual

theorem distinct_mark {found : List Island} (h : Distinct found) : (n : Node) →
    found.length + n.width < 2 ^ 64 → Distinct (s.mark found n).2
  | ⟨tag, attributes, children, span, bindings, island⟩, hsize => by
    rw [Node.width_eq] at hsize
    rw [mark_eq]
    split
    · exact s.distinct_islandOf h _ (by omega)
    · exact distinct_markAll h children (by simp only at hsize; omega)

theorem distinct_markAll {found : List Island} (h : Distinct found) : (ns : List Node) →
    found.length + Node.widthAll ns < 2 ^ 64 → Distinct (s.markAll found ns).2
  | [], _ => h
  | n :: ns, hsize => by
    rw [Node.widthAll] at hsize
    obtain ⟨new, hnew, hlength⟩ := s.exists_mark found n
    unfold markAll
    refine distinct_markAll (distinct_mark h n (by omega)) ns ?_
    rw [hnew, List.length_append]
    omega

end

/-! ## Where nodes and islands come from -/

theorem Marked.refl (n : Node) : Marked n n := ⟨rfl, rfl, rfl, rfl⟩

theorem forall₂_marked_refl (ns : List Node) : List.Forall₂ Marked ns ns :=
  List.forall₂_same.2 fun n _ => .refl n

theorem forall₂_marked_markAll (found : List Island) (ns : List Node) :
    List.Forall₂ Marked ns (s.markAll found ns).1 := by
  induction ns generalizing found with
  | nil => exact .nil
  | cons n ns ih =>
    unfold markAll
    exact .cons (s.marked_mark found n) (ih _)

/-- Marks may be on the node and on those right below it. -/
structure Alike (n m : Node) : Prop extends Marked n m where
  children : List.Forall₂ Marked n.children m.children

theorem Alike.refl (n : Node) : Alike n n := ⟨.refl n, forall₂_marked_refl _⟩

theorem alike_mark (found : List Island) (n : Node) : Alike n (s.mark found n).1 := by
  refine ⟨s.marked_mark found n, ?_⟩
  rw [mark_eq]
  split
  · exact forall₂_marked_refl _
  · exact s.forall₂_marked_markAll found _

mutual

/-- A marked tree has the nodes of the tree in their places. -/
theorem alike_walk (found : List Island) : (n : Node) →
    List.Forall₂ Alike n.walk (s.mark found n).1.walk
  | ⟨tag, attributes, children, span, bindings, island⟩ => by
    have hmark := s.alike_mark found ⟨tag, attributes, children, span, bindings, island⟩
    rw [Node.walk_eq, Node.walk_eq (s.mark found _).1]
    refine .cons hmark ?_
    rw [mark_eq]
    split
    · exact List.forall₂_same.2 fun n _ => .refl n
    · exact alike_walkAll found children

theorem alike_walkAll (found : List Island) : (ns : List Node) →
    List.Forall₂ Alike (Node.walkAll ns) (Node.walkAll (s.markAll found ns).1)
  | [] => .nil
  | n :: ns => by
    unfold markAll
    rw [Node.walkAll]
    exact List.rel_append (alike_walk found n) (alike_walkAll _ ns)

end

theorem marked_walk (found : List Island) (n : Node) :
    List.Forall₂ Marked n.walk (s.mark found n).1.walk :=
  (s.alike_walk found n).imp fun _ _ h => h.toMarked

/-- The nodes of a marked tree are those of the tree, some of them marked. -/
theorem exists_marked (found : List Island) (n : Node) :
    ∀ m ∈ (s.mark found n).1.walk, ∃ n' ∈ n.walk, Marked n' m :=
  exists_of_forall₂ (s.marked_walk found n).flip

/-- Islands come from the interactive ones among these nodes. -/
def From (ns : List Node) (i : Island) : Prop :=
  ∃ n ∈ ns, isInteractive s.reactive n = true ∧ ∃ used, i = s.islandOf used n

mutual

theorem from_of_mem_mark {found : List Island} {ms : List Node}
    (hfound : ∀ i ∈ found, s.From ms i) :
    (n : Node) → n.walk ⊆ ms → ∀ i ∈ (s.mark found n).2, s.From ms i
  | ⟨tag, attributes, children, span, bindings, island⟩, hn => by
    rw [Node.walk_eq] at hn
    rw [mark_eq]
    split
    · rename_i hinteractive
      intro i hi
      rcases List.mem_append.1 hi with hi | hi
      · exact hfound i hi
      · exact ⟨_, hn List.mem_cons_self, hinteractive, _, List.mem_singleton.1 hi⟩
    · exact from_of_mem_markAll hfound children fun m hm => hn (List.mem_cons_of_mem _ hm)

theorem from_of_mem_markAll {found : List Island} {ms : List Node}
    (hfound : ∀ i ∈ found, s.From ms i) : (ns : List Node) → Node.walkAll ns ⊆ ms →
    ∀ i ∈ (s.markAll found ns).2, s.From ms i
  | [], _ => hfound
  | n :: ns, hn => by
    unfold markAll
    refine from_of_mem_markAll (from_of_mem_mark hfound n fun m hm => hn ?_) ns fun m hm => hn ?_
    · exact List.mem_append_left _ hm
    · exact List.mem_append_right _ hm

end

end Island.Survey

namespace Compile

open Markup (RawNode)

/-- A template comes from a tree of formed nodes and from declarations that stand one behind the
other. The tree is checked if no attribute is repeated. -/
theorem exists_tree {c : Config} {src : String} {t : Template}
    (h : (compile c src).template? = some t) :
    ∃ raw nodes declared, Markup.parse c.compiler.maxDepth src = .ok raw ∧
      Node.FormedAll (RawNode.spansAll raw) nodes ∧
      (RawNode.DistinctAll raw → Scoping.Checked ⟨c.eval, admitted raw t⟩ [] (.fragment nodes)) ∧
      Declares (rules c raw) [] declared ∧ t.decls = declared.map (·.2) ∧
      (t.root, t.islands) = Island.extract t.id t.decls (.fragment nodes) := by
  obtain ⟨raw, hraw, h⟩ := exists_raw h
  have hid : t.id = templateId src := by
    rw [(Compilation.eq_of_template? h).2]
    rfl
  obtain ⟨found, draft, hrun, herrors, hdecls, hextract⟩ := exists_draft h
  have hformed := yields_siblings (r := rules c raw) [] false ⟨[], 1⟩ raw {}
  have hall : Admits (rules c raw) fun _ => True := fun _ _ => True.intro
  obtain ⟨hgrows, -⟩ := ensures_siblings hall [] false ⟨[], 1⟩ raw ({} : Draft)
  rw [hrun] at hformed hgrows
  exact ⟨raw, found.2, draft.declared, hraw, hformed.right,
    fun hd => checked_of_siblings hd hrun herrors hdecls, hgrows.declares herrors, hdecls,
    hid ▸ hextract⟩

/-- The nodes that a compilation makes of a text, be there errors or not. There are none if the text
cannot be read. -/
inductive Makes (c : Config) (src : String) : List Node → Prop where
  | rejected : Makes c src []
  | read {raw : List RawNode} (hraw : Markup.parse c.compiler.maxDepth src = .ok raw) :
      Makes c src (siblings [] false ⟨[], 1⟩ raw (rules c raw) {}).1.2

/-- Islands are taken out of the nodes that have been made. -/
theorem exists_makes (c : Config) (src : String) : ∃ nodes, Makes c src nodes ∧
    ((compile c src).root, (compile c src).islands) =
      Island.extract (compile c src).id (compile c src).decls (.fragment nodes) := by
  unfold compile
  dsimp only
  split
  · exact ⟨[], .rejected, rfl⟩
  · split
    · exact ⟨[], .rejected, rfl⟩
    · rename_i raw hraw
      exact ⟨_, .read hraw, rfl⟩

/-- The nodes are formed, and there are not many more of them side by side than there are bytes. -/
theorem Makes.formed {c : Config} {src : String} {nodes : List Node} (h : Makes c src nodes) :
    ∃ places, Node.FormedAll places nodes ∧ places.length ≤ src.utf8ByteSize + 1 := by
  cases h with
  | rejected => exact ⟨[], .nil, Nat.zero_le _⟩
  | @read raw hraw =>
    have hformed := yields_siblings (r := rules c raw) [] false ⟨[], 1⟩ raw {}
    exact ⟨_, hformed.right, (Markup.bounded_parse hraw).length⟩

/-- Be there errors or not, the elements of a compilation are those of HTML with safe attributes. -/
theorem safe_of_compile (c : Config) (src : String) : ∀ m ∈ (compile c src).root.walk,
    ∀ name, m.tag = .html name →
      isHtmlTag name = true ∧ ∀ a ∈ m.attributes, unsafeReason? a.1 a.2 = none := by
  obtain ⟨nodes, hmakes, hextract⟩ := exists_makes c src
  obtain ⟨places, hformed, -⟩ := hmakes.formed
  rw [show (compile c src).root = _ from congrArg Prod.fst hextract]
  intro m hm name htag
  obtain ⟨n, hn, hmarked⟩ := Island.Survey.exists_marked _ _ _ m hm
  rw [Node.walk_eq] at hn
  rcases List.mem_cons.1 hn with rfl | hn
  · rw [hmarked.tag] at htag
    cases htag
  · have hnode := hformed.nodes n hn
    rw [hmarked.attributes]
    exact ⟨hnode.known name (hmarked.tag ▸ htag), hnode.safe name (hmarked.tag ▸ htag)⟩

/-- The islands of a compiled template come from interactive nodes as a compilation makes them. -/
theorem from_of_compile {c : Config} {src : String} {t : Template}
    (h : (compile c src).template? = some t) :
    ∀ i ∈ t.islands, ∃ s : Island.Survey, s.templateId = t.id ∧ ∃ n,
      (n.bindings ≠ [] → n.tag.handlesEvents = true) ∧
      Island.isInteractive s.reactive n = true ∧ ∃ used, i = s.islandOf used n := by
  obtain ⟨raw, nodes, declared, -, hformed, -, -, -, hextract⟩ := exists_tree h
  intro i hi
  rw [show t.islands = _ from congrArg Prod.snd hextract] at hi
  obtain ⟨n, hn, hinteractive, used, hused⟩ :=
    Island.Survey.from_of_mem_mark _ (List.forall_mem_nil _) _ (List.Subset.refl _) i hi
  refine ⟨_, rfl, n, ?_, hinteractive, used, hused⟩
  rw [Node.walk_eq] at hn
  rcases List.mem_cons.1 hn with rfl | hn
  · exact fun hb => absurd rfl hb
  · exact (hformed.nodes n hn).handles

/-- No two islands have the same name, be there errors or not. A text in memory is shorter than
`2 ^ 63` bytes. -/
theorem distinct_islands {c : Config} {src : String} (hsize : src.utf8ByteSize < 2 ^ 63) :
    Island.Distinct (compile c src).islands := by
  obtain ⟨nodes, hmakes, hextract⟩ := exists_makes c src
  obtain ⟨places, hformed, hplaces⟩ := hmakes.formed
  have hwidth := hformed.width
  rw [show (compile c src).islands = _ from congrArg Prod.snd hextract]
  have hnone : Island.Distinct [] := List.nodup_nil
  refine Island.Survey.distinct_mark _ hnone _ ?_
  rw [Node.width_eq]
  show 0 + max 1 (Node.widthAll nodes) < 2 ^ 64
  omega

theorem distinct_of_compile {c : Config} {src : String} {t : Template}
    (hsize : src.utf8ByteSize < 2 ^ 63) (h : (compile c src).template? = some t) :
    Island.Distinct t.islands := by
  rw [(Compilation.eq_of_template? h).2]
  exact distinct_islands hsize

end Compile

end Archipelago
