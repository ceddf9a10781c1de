import Archipelago.Proofs.Compile.Tree
import Archipelago.Proofs.Dependency.Order

/-!
# Templates that compile are checked

A template comes out of a compilation without errors only. So all of it is checked against the
variables that it declares, and those that are on a cycle.
-/

/-!
## Islands of a checked tree

No island lies inside a loop that is not itself part of one, so nothing is bound around an island.
Hence the islands of a checked tree are checked on their own, and the marks on the tree change
nothing about its checks.
-/

namespace Archipelago

open Template (Node)

namespace Island.Survey

variable (s : Survey)

/-- The outermost interactive nodes are marked, and become islands. -/
theorem mark_eq (found : List Island) (n : Node) :
    s.mark found n =
      if isInteractive s.reactive n then
        ((s.islandOf (found.map (·.id)) n).node, found ++ [s.islandOf (found.map (·.id)) n])
      else ({ n with children := (s.markAll found n.children).1 },
        (s.markAll found n.children).2) := by
  obtain ⟨tag, attributes, children, span, bindings, island⟩ := n
  rfl

/-! ## Loops without islands -/

mutual

theorem mark_of_not_interactive (found : List Island) : (n : Node) →
    isInteractive s.reactive n = false → anyInteractive s.reactive n.children = false →
      s.mark found n = (n, found)
  | ⟨tag, attributes, children, span, bindings, island⟩, hn, hc => by
    rw [mark_eq, hn, if_neg nofun, markAll_of_not_interactive found children hc]

/-- Where no node is interactive, nothing is marked and no island is found. -/
theorem markAll_of_not_interactive (found : List Island) : (ns : List Node) →
    anyInteractive s.reactive ns = false → s.markAll found ns = (ns, found)
  | [], _ => rfl
  | ⟨tag, attributes, children, span, bindings, island⟩ :: ns, h => by
    unfold anyInteractive at h
    rw [Bool.or_eq_false_iff, Bool.or_eq_false_iff] at h
    have hmark := mark_of_not_interactive found _ h.1.1 h.1.2
    unfold markAll
    dsimp only
    rw [hmark, markAll_of_not_interactive found ns h.2]

end

theorem anyInteractive_children {n : Node} (hn : isInteractive s.reactive n = false)
    (hloop : n.isDsl .forEach = true) : anyInteractive s.reactive n.children = false := by
  obtain ⟨tag, attributes, children, span, bindings, island⟩ := n
  obtain rfl := Node.tag_of_isDsl hloop
  unfold isInteractive at hn
  simp only [Bool.or_eq_false_iff] at hn
  exact hn.2.2

/-! ## Marks -/

/-- A mark changes neither what a node is nor what it does. -/
structure Marked (n m : Node) : Prop where
  tag : m.tag = n.tag
  attributes : m.attributes = n.attributes
  bindings : m.bindings = n.bindings
  span : m.span = n.span

theorem marked_mark (found : List Island) (n : Node) : Marked n (s.mark found n).1 := by
  rw [mark_eq]
  split
  · exact ⟨rfl, rfl, rfl, rfl⟩
  · exact ⟨rfl, rfl, rfl, rfl⟩

theorem marked_markAll (found : List Island) (ns : List Node) :
    ∀ m ∈ (s.markAll found ns).1, ∃ n ∈ ns, Marked n m := by
  induction ns generalizing found with
  | nil => exact fun m hm => by cases hm
  | cons n ns ih =>
    unfold markAll
    intro m hm
    rcases List.mem_cons.1 hm with rfl | hm
    · exact ⟨n, List.mem_cons_self, s.marked_mark found n⟩
    · obtain ⟨n', hn', hmark⟩ := ih _ m hm
      exact ⟨n', List.mem_cons_of_mem _ hn', hmark⟩

section

variable {sc : Scoping} {names : List String}

namespace Marked

variable {n m : Node}

theorem attr? (h : Marked n m) (name : String) : m.attr? name = n.attr? name := by
  unfold Node.attr?
  rw [h.attributes]

theorem dsl? (h : Marked n m) : m.dsl? = n.dsl? := by
  unfold Node.dsl?
  rw [h.tag]

theorem isDsl (h : Marked n m) (t : DslTag) : m.isDsl t = n.isDsl t := by
  unfold Node.isDsl
  rw [h.dsl?]

theorem isBranch (h : Marked n m) : m.isBranch = n.isBranch := by
  unfold Node.isBranch
  rw [h.isDsl, h.isDsl, h.isDsl]

theorem loopNames (h : Marked n m) : m.loopNames = n.loopNames := by
  unfold Node.loopNames
  rw [h.isDsl, h.attr?, h.attr?]

theorem checkedCondition (h : Marked n m) (hn : sc.CheckedCondition names n) :
    sc.CheckedCondition names m := by
  unfold Scoping.CheckedCondition at *
  simpa only [h.attr?] using hn

/-- The checks of a node are those of the node that it is marked from. -/
theorem checkedNode (h : Marked n m) (hc : ∀ c ∈ m.children, ∃ c' ∈ n.children, Marked c' c)
    (hn : sc.CheckedNode names n) : sc.CheckedNode names m where
  bindings := h.bindings ▸ hn.bindings
  attributes := by
    have ha := hn.attributes
    unfold Scoping.CheckedAttributes at *
    rw [h.dsl?, h.attr?, h.attr?, h.loopNames]
    cases hd : n.dsl? with
    | none => exact True.intro
    | some t =>
      rw [hd] at ha
      cases t
      case ifChain =>
        intro c hcm
        obtain ⟨c', hc', hmark⟩ := hc c hcm
        obtain ⟨hbranch, hcondition⟩ := ha c' hc'
        exact ⟨hmark.isBranch ▸ hbranch, fun helse =>
          hmark.checkedCondition (hcondition (hmark.isDsl _ ▸ helse))⟩
      all_goals exact ha

end Marked

/-- Its name is no part of what is checked of an island. -/
theorem checked_islandOf (used : List String) {n : Node} (hn : sc.Checked names n) :
    sc.Checked names (s.islandOf used n).node := by
  have hmark : Marked n (s.islandOf used n).node := ⟨rfl, rfl, rfl, rfl⟩
  obtain ⟨hnode, hchildren⟩ := (Scoping.checked_iff _ _).1 hn
  refine (Scoping.checked_iff _ _).2
    ⟨hmark.checkedNode (fun c hc => ⟨c, hc, rfl, rfl, rfl, rfl⟩) hnode, ?_⟩
  rw [hmark.loopNames]
  exact hchildren

mutual

/-- The marked tree is checked as before. -/
theorem checked_mark (names : List String) (found : List Island) : (n : Node) →
    sc.Checked names n → sc.Checked names (s.mark found n).1
  | ⟨tag, attributes, children, span, bindings, island⟩, hn => by
    have hmark := s.marked_mark found ⟨tag, attributes, children, span, bindings, island⟩
    obtain ⟨hnode, hchildren⟩ := (Scoping.checked_iff _ _).1 hn
    rw [mark_eq] at hmark ⊢
    split
    · exact s.checked_islandOf _ hn
    · rename_i hinert
      rw [if_neg hinert] at hmark
      refine (Scoping.checked_iff _ _).2 ⟨hmark.checkedNode (s.marked_markAll found _) hnode, ?_⟩
      rw [hmark.loopNames]
      exact checked_markAll _ found children hchildren

theorem checked_markAll (names : List String) (found : List Island) : (ns : List Node) →
    sc.CheckedAll names ns → sc.CheckedAll names (s.markAll found ns).1
  | [], _ => True.intro
  | n :: ns, hns => ⟨checked_mark names found n hns.1, checked_markAll names _ ns hns.2⟩

end

mutual

/-- Nothing is bound around the islands of a tree around which nothing is bound. -/
theorem checked_of_mem_mark {found : List Island} : (n : Node) → sc.Checked [] n →
    (∀ i ∈ found, sc.Checked [] i.node) → ∀ i ∈ (s.mark found n).2, sc.Checked [] i.node
  | ⟨tag, attributes, children, span, bindings, island⟩, hn, hfound => by
    rw [mark_eq]
    split
    · intro i hi
      rcases List.mem_append.1 hi with hi | hi
      · exact hfound i hi
      · rw [List.mem_singleton.1 hi]
        exact s.checked_islandOf _ hn
    · rename_i hinert
      have hchildren := ((Scoping.checked_iff _ _).1 hn).2
      by_cases hloop :
          Node.isDsl ⟨tag, attributes, children, span, bindings, island⟩ .forEach = true
      · have hnone := s.anyInteractive_children (Bool.eq_false_iff.2 hinert) hloop
        rw [s.markAll_of_not_interactive found children hnone]
        exact hfound
      · have hnames : Node.loopNames ⟨tag, attributes, children, span, bindings, island⟩ = [] :=
          if_neg hloop
        rw [hnames] at hchildren
        exact checked_of_mem_markAll children hchildren hfound

theorem checked_of_mem_markAll {found : List Island} : (ns : List Node) → sc.CheckedAll [] ns →
    (∀ i ∈ found, sc.Checked [] i.node) → ∀ i ∈ (s.markAll found ns).2, sc.Checked [] i.node
  | [], _, hfound => hfound
  | n :: ns, hns, hfound => by
    unfold markAll
    exact checked_of_mem_markAll ns hns.2 (checked_of_mem_mark n hns.1 hfound)

end

end

end Island.Survey

/-- A template is what a compilation without errors leaves. -/
theorem Compilation.eq_of_template? {k : Compilation} {t : Template} (h : k.template? = some t) :
    k.errors = [] ∧ t = ⟨k.id, k.root, k.islands, k.decls⟩ := by
  unfold template? at h
  split at h
  · rename_i herrors
    exact ⟨List.isEmpty_iff.1 herrors, (Option.some.inj h).symm⟩
  · cases h

namespace Compile

open Markup (RawNode)
open Template (Node)

/-- A template comes from markup that could be read. -/
theorem exists_raw {c : Config} {src : String} {t : Template}
    (h : (compile c src).template? = some t) :
    ∃ raw, Markup.parse c.compiler.maxDepth src = .ok raw ∧
      (ofRaw c (templateId src) raw).template? = some t := by
  unfold compile at h
  dsimp only at h
  split at h
  · cases h
  · split at h
    · cases h
    · rename_i raw hraw
      exact ⟨raw, hraw, h⟩

/-- A compilation by rules that are given. -/
def byRules (r : Rules) (id : String) (raw : List RawNode) : Compilation :=
  let ((_, nodes), draft) := (siblings [] false ⟨[], 1⟩ raw).run r |>.run {}
  let decls := draft.declared.map (·.2)
  let (root, islands) := Island.extract id decls (.fragment nodes)
  ⟨id, root, islands, decls, draft.errors, draft.warnings⟩

theorem compile_eq_byRules {c : Config} {src : String} {raw : List RawNode}
    (hsize : src.utf8ByteSize ≤ c.compiler.maxMarkupBytes)
    (hraw : Markup.parse c.compiler.maxDepth src = .ok raw) :
    compile c src = byRules (rules c raw) (templateId src) raw := by
  unfold compile
  dsimp only
  rw [if_neg (Nat.not_lt.2 hsize), hraw]
  rfl

/-- A compilation as it evaluates: where no computed variable reads another, the walk for cycles
need not be made. -/
def evaluated (c : Config) (src : String) : Option Compilation := do
  let raw ← (Markup.parse c.compiler.maxDepth src).toOption
  let graph := computedGraph raw
  if src.utf8ByteSize ≤ c.compiler.maxMarkupBytes ∧ ∀ e ∈ graph, ∀ dep ∈ e.2, dep ∉ Dict.keys graph
  then some (byRules ⟨c.compiler, c.eval, c.hydration.minIntervalMs, []⟩ (templateId src) raw)
  else none

theorem compile_of_evaluated {c : Config} {src : String} {k : Compilation}
    (h : evaluated c src = some k) : compile c src = k := by
  obtain ⟨raw, hraw, h⟩ := Option.bind_eq_some_iff.1 h
  obtain ⟨⟨hsize, hforeign⟩, h⟩ := Option.ite_none_right_eq_some.1 h
  rw [compile_eq_byRules hsize (toOption_eq_some.1 hraw), rules,
    Dependency.Graph.cyclic_of_foreign hforeign]
  exact Option.some.inj h

/-- The nodes of a template and the draft that it was made from. -/
theorem exists_draft {c : Config} {id : String} {raw : List RawNode} {t : Template}
    (h : (ofRaw c id raw).template? = some t) :
    ∃ found draft, siblings [] false ⟨[], 1⟩ raw (rules c raw) {} = (found, draft) ∧
      draft.errors = [] ∧ t.decls = draft.declared.map (·.2) ∧
      (t.root, t.islands) = Island.extract id t.decls (.fragment found.2) := by
  obtain ⟨herrors, rfl⟩ := Compilation.eq_of_template? h
  exact ⟨_, _, rfl, herrors, rfl, rfl⟩

/-- The names that a compilation admits: declared ones, and those on a cycle. -/
def admitted (raw : List RawNode) (t : Template) : String → Prop := fun name =>
  name ∈ t.decls.map (·.name) ∨ name ∈ (computedGraph raw).cyclic

/-- The nodes of a compilation that ends clean are checked. -/
theorem checked_of_siblings {c : Config} {raw : List RawNode} {t : Template}
    {found : List Node × List Node} {draft : Draft} (hd : RawNode.DistinctAll raw)
    (hrun : siblings [] false ⟨[], 1⟩ raw (rules c raw) {} = (found, draft))
    (herrors : draft.errors = []) (hdecls : t.decls = draft.declared.map (·.2)) :
    Scoping.Checked ⟨c.eval, admitted raw t⟩ [] (.fragment found.2) := by
  have hadmits : Admits (rules c raw) (admitted raw t) := fun name hn => .inr hn
  obtain ⟨hgrows, hensures⟩ := ensures_siblings hadmits [] false ⟨[], 1⟩ raw {}
  rw [hrun] at hgrows hensures
  have hnamed : draft.Named := hgrows.named fun e he => by cases he
  have hclean : Clean (admitted raw t) draft := by
    refine ⟨herrors, fun name hn => .inl ?_⟩
    obtain ⟨e, he, rfl⟩ := List.mem_map.1 hn
    rw [hdecls, List.map_map]
    exact List.mem_map.2 ⟨e, he, hnamed e he⟩
  exact checked_of_children rfl True.intro (List.forall_mem_nil _) (hensures hclean hd).2

/-- All of a template that compiles is checked, and each of its islands on its own. -/
theorem checked_of_compile {c : Config} {src : String} {raw : List RawNode} {t : Template}
    (hraw : Markup.parse c.compiler.maxDepth src = .ok raw) (hd : RawNode.DistinctAll raw)
    (h : (compile c src).template? = some t) :
    Scoping.Checked ⟨c.eval, admitted raw t⟩ [] t.root ∧
      ∀ i ∈ t.islands, Scoping.Checked ⟨c.eval, admitted raw t⟩ [] i.node := by
  obtain ⟨raw', hraw', h⟩ := exists_raw h
  obtain rfl := Except.ok.inj (hraw.symm.trans hraw')
  obtain ⟨found, draft, hrun, herrors, hdecls, hextract⟩ := exists_draft h
  have hroot := checked_of_siblings hd hrun herrors hdecls
  have hmark := Prod.ext_iff.1 hextract
  rw [show t.root = _ from hmark.1, show t.islands = _ from hmark.2]
  exact ⟨Island.Survey.checked_mark _ _ _ _ hroot,
    Island.Survey.checked_of_mem_mark _ _ hroot (List.forall_mem_nil _)⟩

end Compile

end Archipelago
