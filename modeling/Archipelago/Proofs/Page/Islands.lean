import Archipelago.Proofs.Compile.Extract
import Archipelago.Proofs.Page.Coverage

/-!
# Islands on a page

What stands inside an island is drawn without a look at anything outside of it but the handlers
drawn before. Hence an island shows the same on the page as it does on its own. No island lies
inside another one or inside a loop, so a page shows each island at most once, and in order.
-/

namespace Archipelago

namespace Page

/-! ## Placeholders -/

/-- A place that an island takes on a page, and what it shows at first. -/
structure Placeholder where
  id : String
  component : String
  children : List Node

namespace Node

mutual

/-- The places of islands in a page, outer ones before those inside of them. -/
def placeholders : Node → List Placeholder
  | text _ | raw _ => []
  | fragment children => placeholdersAll children
  | element _ _ children => placeholdersAll children
  | island id component children => ⟨id, component, children⟩ :: placeholdersAll children

/-- The placeholders in a list of pieces, in order. -/
def placeholdersAll : List Node → List Placeholder
  | [] => []
  | n :: ns => placeholders n ++ placeholdersAll ns

end

/-- The placeholders of two lists, one behind the other. -/
@[simp] theorem placeholdersAll_append (ns ms : List Node) :
    placeholdersAll (ns ++ ms) = placeholdersAll ns ++ placeholdersAll ms := by
  induction ns with
  | nil => rfl
  | cons n ns ih => simp [placeholdersAll, ih]

theorem placeholdersAll_flatten {nss : List (List Node)} (h : ∀ ns ∈ nss, placeholdersAll ns = []) :
    placeholdersAll nss.flatten = [] := by
  induction nss with
  | nil => rfl
  | cons ns nss ih =>
    rw [List.flatten_cons, placeholdersAll_append, h ns List.mem_cons_self,
      ih fun ns hns => h ns (List.mem_cons_of_mem _ hns)]
    rfl

end Node

/-! ## Steps inside an island -/

section

variable {α β : Type}

/-- A step that looks at nothing but the handlers drawn so far, and draws no island. -/
structure Inner (x : Draw α) : Prop where
  result : ∀ d d', d.handlers = d'.handlers → (x.run d).1 = (x.run d').1
  handlers : ∀ d d', d.handlers = d'.handlers → (x.run d).2.handlers = (x.run d').2.handlers
  islands : ∀ d, (x.run d).2.islands = d.islands
  islandHandlers : ∀ d, (x.run d).2.islandHandlers = d.islandHandlers

namespace Inner

theorem pure (a : α) : Inner (Pure.pure a : Draw α) where
  result _ _ _ := rfl
  handlers _ _ h := h
  islands _ := rfl
  islandHandlers _ := rfl

theorem bind {x : Draw α} {f : α → Draw β} (hx : Inner x) (hf : ∀ a, Inner (f a)) :
    Inner (x >>= f) where
  result d d' h := by
    show ((f (x.run d).1).run (x.run d).2).1 = ((f (x.run d').1).run (x.run d').2).1
    rw [hx.result d d' h]
    exact (hf _).result _ _ (hx.handlers d d' h)
  handlers d d' h := by
    show ((f (x.run d).1).run (x.run d).2).2.handlers =
      ((f (x.run d').1).run (x.run d').2).2.handlers
    rw [hx.result d d' h]
    exact (hf _).handlers _ _ (hx.handlers d d' h)
  islands d := ((hf _).islands _).trans (hx.islands d)
  islandHandlers d := ((hf _).islandHandlers _).trans (hx.islandHandlers d)

theorem mapM {f : α → Draw β} (h : ∀ a, Inner (f a)) (xs : List α) : Inner (xs.mapM f) := by
  induction xs with
  | nil => exact .pure []
  | cons x xs ih =>
    rw [List.mapM_cons]
    exact (h x).bind fun _ => ih.bind fun _ => .pure _

theorem warn (n : Template.Node) (t : Trouble) : Inner (Page.warn n t) where
  result _ _ _ := rfl
  handlers _ _ h := h
  islands _ := rfl
  islandHandlers _ := rfl

theorem addHandler (h : Handler) : Inner (Page.addHandler h) where
  result _ _ hd := congrArg List.length hd
  handlers _ _ hd := congrArg (· ++ [h]) hd
  islands _ := rfl
  islandHandlers _ := rfl

end Inner

/-- What a step shows if it shows no island, wherever it starts. -/
def Bare (x : Draw (List Node)) : Prop := ∀ d, Node.placeholdersAll (x.run d).1 = []

namespace Bare

theorem pure {ns : List Node} (h : Node.placeholdersAll ns = []) : Bare (Pure.pure ns) := fun _ => h

theorem bind {x : Draw α} {f : α → Draw (List Node)} (h : ∀ a, Bare (f a)) : Bare (x >>= f) :=
  fun d => h (x.run d).1 (x.run d).2

theorem append {x y : Draw (List Node)} (hx : Bare x) (hy : Bare y) :
    Bare (do return (← x) ++ (← y)) := by
  intro d
  show Node.placeholdersAll ((x.run d).1 ++ (y.run (x.run d).2).1) = []
  rw [Node.placeholdersAll_append, hx, hy]
  rfl

theorem element {x : Draw (List Node)} (hx : Bare x) (tag : String) (attributes : Dict String) :
    Bare (do return [.element tag attributes (← x)]) := by
  intro d
  show Node.placeholdersAll (x.run d).1 ++ [] = []
  rw [hx d]
  rfl

theorem flatten {f : α → Draw (List Node)} (h : ∀ a, Bare (f a)) (xs : List α) :
    Bare (do return (← xs.mapM f).flatten) := by
  suffices hall : ∀ d, ∀ ns ∈ ((xs.mapM f).run d).1, Node.placeholdersAll ns = [] from
    fun d => Node.placeholdersAll_flatten (hall d)
  induction xs with
  | nil => exact fun d ns hns => by cases hns
  | cons x xs ih =>
    intro d
    rw [List.mapM_cons]
    exact List.forall_mem_cons.2 ⟨h x d, ih _⟩

end Bare

/-- A step that stands inside an island, or where there is none. -/
structure Quiet (x : Draw (List Node)) : Prop where
  inner : Inner x
  bare : Bare x

namespace Quiet

theorem pure {ns : List Node} (h : Node.placeholdersAll ns = []) : Quiet (Pure.pure ns) :=
  ⟨.pure _, .pure h⟩

theorem bind {x : Draw α} {f : α → Draw (List Node)} (hx : Inner x) (hf : ∀ a, Quiet (f a)) :
    Quiet (x >>= f) := ⟨hx.bind fun a => (hf a).inner, .bind fun a => (hf a).bare⟩

/-- Two quiet pieces next to each other are quiet. -/
theorem append {x y : Draw (List Node)} (hx : Quiet x) (hy : Quiet y) :
    Quiet (do return (← x) ++ (← y)) :=
  ⟨hx.inner.bind fun _ => hy.inner.bind fun _ => .pure _, hx.bare.append hy.bare⟩

theorem element {x : Draw (List Node)} (hx : Quiet x) (tag : String) (attributes : Dict String) :
    Quiet (do return [.element tag attributes (← x)]) :=
  ⟨hx.inner.bind fun _ => .pure _, hx.bare.element tag attributes⟩

theorem flatten {f : α → Draw (List Node)} (h : ∀ a, Quiet (f a)) (xs : List α) :
    Quiet (do return (← xs.mapM f).flatten) :=
  ⟨(Inner.mapM (fun a => (h a).inner) xs).bind fun _ => .pure _, .flatten (fun a => (h a).bare) xs⟩

end Quiet

end

/-! ## What the parts of a page do -/

section Parts

variable (v : View) (n : Template.Node)

/-- A condition may warn, and it draws nothing. -/
theorem inner_condition : Inner (condition v n) := by
  unfold condition
  split
  · exact .pure _
  · exact (Inner.warn _ _).bind fun _ => .pure _

theorem inner_switchValue : Inner (switchValue v n) := by
  unfold switchValue
  dsimp only
  split
  · exact .pure _
  · exact (Inner.warn _ _).bind fun _ => .pure _

theorem inner_roundItems (r : Renderer) : Inner (roundItems r v n) := by
  unfold roundItems
  split
  · exact .pure _
  · rename_i path _
    have hitems : Inner (loopItems v n path) := by
      unfold loopItems
      split
      · exact .pure _
      · dsimp only
        split
        · exact (Inner.warn _ _).bind fun _ => .pure _
        · exact .pure _
      · exact (Inner.warn _ _).bind fun _ => .pure _
    refine hitems.bind fun items => ?_
    dsimp only
    split
    · exact (Inner.warn _ _).bind fun _ => .pure _
    · exact .pure _

theorem inner_buttonAttributes : Inner (buttonAttributes v n) := by
  unfold buttonAttributes
  dsimp only
  split
  · exact .pure _
  · exact (Inner.addHandler _).bind fun _ => .pure _

theorem quiet_showVar : Quiet (showVar v n) := by
  unfold showVar
  split
  · exact .pure rfl
  · dsimp only
    split
    · exact .pure rfl
    · exact .bind (.warn _ _) fun _ => .pure rfl

/-- A field adds a handler, and it is no island. -/
theorem quiet_field (checkbox : Bool) : Quiet (field v n checkbox) := by
  unfold field
  split
  · exact .pure rfl
  · refine .bind (.addHandler _) fun place => ?_
    dsimp only
    split
    · exact .pure rfl
    · exact .pure rfl

theorem quiet_lifecycle (bs : List EventBinding) : Quiet (lifecycle v bs) := by
  induction bs with
  | nil => exact .pure rfl
  | cons b bs ih => exact .bind ((Inner.addHandler _).bind fun _ => .pure _) fun _ => ih

/-- The markup of a component counts as text: no placeholder is looked for in it. -/
theorem placeholders_residentNode (r : Renderer) (t : ResidentTag) (attributes : Dict String) :
    Node.placeholdersAll [residentNode r v t attributes] = [] := by
  unfold residentNode
  split
  · rfl
  · rfl

end Parts

/-! ## Trees without islands -/

/-- What a node draws is drawn quietly, if what is below it is. -/
theorem quiet_body (r : Renderer) (inner : Bool) (v : View) (n : Template.Node)
    (hnodes : ∀ v, Quiet (nodes r inner v n.children))
    (hbranch : Quiet (firstBranch r inner v n.children))
    (hwhere : ∀ p, Quiet (firstWhere r inner v p n.children)) : Quiet (body r inner v n) := by
  obtain ⟨tag, attributes, children, span, bindings, island⟩ := n
  cases tag with
  | fragment => exact hnodes v
  | text content => exact .pure rfl
  | html name => exact (hnodes v).element name attributes
  | dsl t =>
    cases t with
    | showVar => exact quiet_showVar v _
    | ifChain => exact hbranch
    | switch => exact .bind (inner_switchValue v _) fun value => hwhere _
    | forEach =>
      simp only [body, rounds_mapM]
      exact .bind (inner_roundItems v _ r) fun items => .flatten (fun x => hnodes _) items
    | button =>
      exact .bind (inner_buttonAttributes v _) fun attributes => (hnodes v).element _ attributes
    | textInput | checkbox => exact quiet_field v _ _
    | event e =>
      cases e with
      | onMount | onInterval => exact quiet_lifecycle v bindings
      | onClick | onChange => exact .pure rfl
    | resident t => exact .pure (placeholders_residentNode v r t attributes)
    | _ => exact .pure rfl

/-- Nothing starts an island here: either there is one around already, or no node is marked. -/
def Unmarked (inside : Bool) (ns : List Template.Node) : Prop :=
  inside = true ∨ ∀ n ∈ Template.Node.walkAll ns, n.island = none

section

variable {inside : Bool} {ns : List Template.Node}

/-- What stands in front is unmarked, and all below it. -/
theorem Unmarked.head {n : Template.Node} (h : Unmarked inside (n :: ns)) :
    (inside = true ∨ n.island = none) ∧ Unmarked inside n.children :=
  ⟨h.imp_right fun hall => (Template.Node.forall_walkAll_cons.1 hall).1,
    h.imp_right fun hall => (Template.Node.forall_walkAll_cons.1 hall).2.1⟩

theorem Unmarked.tail {n : Template.Node} (h : Unmarked inside (n :: ns)) : Unmarked inside ns :=
  h.imp_right fun hall => (Template.Node.forall_walkAll_cons.1 hall).2.2

end

mutual

/-- Where no island starts, a node is drawn quietly. -/
theorem quiet_node (r : Renderer) (inside : Bool) (v : View) : (n : Template.Node) →
    (inside = true ∨ n.island = none) → Unmarked inside n.children → Quiet (node r inside v n)
  | ⟨tag, attributes, children, span, bindings, island⟩, hn, hc => by
    have hbody : Quiet (body r inside v ⟨tag, attributes, children, span, bindings, island⟩) :=
      quiet_body r inside v _ (fun v => quiet_nodes r inside v children hc)
        (quiet_firstBranch r inside v children hc) fun p =>
          quiet_firstWhere r inside v p children hc
    rw [node_eq]
    rcases hn with rfl | hn
    · cases island with
      | none => exact hbody
      | some id => exact hbody
    · obtain rfl : island = none := hn
      rw [Option.isSome_none, Bool.or_false]
      exact hbody

/-- Nodes without marks are drawn quietly. -/
theorem quiet_nodes (r : Renderer) (inside : Bool) (v : View) : (ns : List Template.Node) →
    Unmarked inside ns → Quiet (nodes r inside v ns)
  | [], _ => .pure rfl
  | n :: ns, h =>
    (quiet_node r inside v n h.head.1 h.head.2).append (quiet_nodes r inside v ns h.tail)

theorem quiet_firstBranch (r : Renderer) (inside : Bool) (v : View) : (ns : List Template.Node) →
    Unmarked inside ns → Quiet (firstBranch r inside v ns)
  | [], _ => .pure rfl
  | ⟨tag, attributes, children, span, bindings, island⟩ :: rest, h => by
    have hnext : ∀ taken : Bool, Quiet
        (if taken then nodes r inside v children else firstBranch r inside v rest) := by
      intro taken
      cases taken with
      | true => exact quiet_nodes r inside v children h.head.2
      | false => exact quiet_firstBranch r inside v rest h.tail
    unfold firstBranch
    dsimp only
    split
    · exact .bind (.pure true) hnext
    · exact .bind (inner_condition v _) hnext

theorem quiet_firstWhere (r : Renderer) (inside : Bool) (v : View) (p : Template.Node → Bool) :
    (ns : List Template.Node) → Unmarked inside ns → Quiet (firstWhere r inside v p ns)
  | [], _ => .pure rfl
  | ⟨tag, attributes, children, span, bindings, island⟩ :: rest, h => by
    unfold firstWhere
    split
    · exact quiet_nodes r inside v children h.head.2
    · exact quiet_firstWhere r inside v p rest h.tail

end

/-! ## Trees with islands -/

section

variable (r : Renderer) (scope : Scope)

/-- The place of an island that shows what it shows on its own. -/
def placeholderOf (i : Island) : Placeholder :=
  ⟨i.id, i.component, (r.renderIsland scope i).children⟩

/-- The handlers of an island under its name. -/
def handlersOf (i : Island) : String × List Handler := (i.id, (r.renderIsland scope i).handlers)

theorem Unmarked.single {inside : Bool} {n : Template.Node} {ns : List Template.Node}
    (h : Unmarked inside (n :: ns)) : Unmarked inside [n] :=
  h.imp_right fun hall m hm =>
    hall m (List.mem_append_left _ (by simpa [Template.Node.walkAll] using hm))

/-- A branch is drawn if its condition holds, and otherwise the next one is tried. -/
theorem firstBranch_cons (r : Renderer) (inside : Bool) (v : View) (n : Template.Node)
    (ns : List Template.Node) :
    firstBranch r inside v (n :: ns) = (do
      let taken ← if n.isDsl .elseBranch then pure true else condition v n
      if taken then nodes r inside v n.children else firstBranch r inside v ns) := by
  obtain ⟨tag, attributes, children, span, bindings, island⟩ := n
  rfl

theorem firstWhere_cons (r : Renderer) (inside : Bool) (v : View) (p : Template.Node → Bool)
    (n : Template.Node) (ns : List Template.Node) :
    firstWhere r inside v p (n :: ns) =
      if p n then nodes r inside v n.children else firstWhere r inside v p ns := by
  obtain ⟨tag, attributes, children, span, bindings, island⟩ := n
  rfl

/-- A step that draws some of the islands, in order, each as it is on its own. -/
structure Serves (islands : List Island) (x : Draw (List Node)) : Prop where
  draws : ∀ d, (∀ i ∈ islands, i.id ∉ Dict.keys d.islandHandlers) →
    ∃ shown : List Island, shown.Sublist islands ∧
      Node.placeholdersAll (x.run d).1 = shown.map (placeholderOf r scope) ∧
      (x.run d).2.islands = d.islands ++ shown.map (·.id) ∧
      (x.run d).2.islandHandlers = d.islandHandlers ++ shown.map (handlersOf r scope)

namespace Serves

variable {r scope} {islands more : List Island} {x y : Draw (List Node)} {α : Type}

/-- What is quiet draws no islands at all. -/
theorem of_quiet (h : Quiet x) : Serves r scope islands x where
  draws d _ := ⟨[], List.nil_sublist _, h.bare d,
    (h.inner.islands d).trans (List.append_nil _).symm,
    (h.inner.islandHandlers d).trans (List.append_nil _).symm⟩

theorem bind {x : Draw α} {f : α → Draw (List Node)} (hx : Inner x)
    (hf : ∀ a, Serves r scope islands (f a)) : Serves r scope islands (x >>= f) where
  draws d hd := by
    have hrun := (hf (x.run d).1).draws (x.run d).2
    rw [hx.islands, hx.islandHandlers] at hrun
    exact hrun hd

theorem element (h : Serves r scope islands x) (tag : String) (attributes : Dict String) :
    Serves r scope islands (do return [.element tag attributes (← x)]) where
  draws d hd := by
    obtain ⟨shown, hsub, hplaces, hislands, hhandlers⟩ := h.draws d hd
    exact ⟨shown, hsub, (List.append_nil _).trans hplaces, hislands, hhandlers⟩

theorem mono (h : Serves r scope islands x) (hsub : islands.Sublist more) :
    Serves r scope more x where
  draws d hd := by
    obtain ⟨shown, hshown, hrest⟩ := h.draws d fun i hi => hd i (hsub.subset hi)
    exact ⟨shown, hshown.trans hsub, hrest⟩

/-- Two pieces of a page next to each other: the islands of the first have other names than those
behind them. -/
theorem append (hx : Serves r scope islands x) (hy : Serves r scope more y)
    (hdistinct : Island.Distinct (islands ++ more)) :
    Serves r scope (islands ++ more) (do return (← x) ++ (← y)) := by
  refine ⟨fun d hd => ?_⟩
  obtain ⟨first, hfirst, hplaces, hislands, hhandlers⟩ :=
    hx.draws d fun i hi => hd i (List.mem_append_left _ hi)
  have hfresh : ∀ i ∈ more, i.id ∉ Dict.keys (x.run d).2.islandHandlers := by
    intro i hi hmem
    rw [hhandlers, Dict.keys, List.map_append, List.mem_append] at hmem
    rcases hmem with hmem | hmem
    · exact hd i (List.mem_append_right _ hi) hmem
    · rw [List.map_map] at hmem
      obtain ⟨j, hj, hij⟩ := List.mem_map.1 hmem
      unfold Island.Distinct at hdistinct
      rw [List.map_append] at hdistinct
      exact List.disjoint_of_nodup_append hdistinct (List.mem_map_of_mem (hfirst.subset hj))
        (List.mem_map.2 ⟨i, hi, hij.symm⟩)
  obtain ⟨second, hsecond, hplaces', hislands', hhandlers'⟩ := hy.draws _ hfresh
  refine ⟨first ++ second, hfirst.append hsecond, ?_, ?_, ?_⟩
  · rw [List.map_append, ← hplaces, ← hplaces']
    exact Node.placeholdersAll_append _ _
  · rw [List.map_append, ← List.append_assoc, ← hislands, ← hislands']
    rfl
  · rw [List.map_append, ← List.append_assoc, ← hhandlers, ← hhandlers']
    rfl

/-- One of two steps. -/
theorem choose (hx : Serves r scope islands x) (hy : Serves r scope more y) (taken : Bool) :
    Serves r scope (islands ++ more) (if taken then x else y) := by
  cases taken with
  | true => exact hx.mono (List.sublist_append_left _ _)
  | false => exact hy.mono (List.sublist_append_right _ _)

end Serves

/-- The view that a page is drawn from. -/
abbrev start : View := { limits := r.eval, scope }

/-- The root of an island is drawn as inside of it, in a place of its own. -/
theorem node_island (v : View) {i : Island} {n : Template.Node}
    (hi : i.node = { n with island := some i.id }) (hcomponent : i.component = n.tag.name) :
    node r false v i.node = enclose (some i.id) false i.component (node r true v i.node) := by
  rw [node_eq, node_eq, hi, hcomponent]
  rfl

/-- An island on a page is drawn as on its own. -/
theorem serves_island {i : Island} {n : Template.Node}
    (hi : i.node = { n with island := some i.id })
    (hcomponent : i.component = n.tag.name) :
    Serves r scope [i] (node r false (start r scope) i.node) := by
  have hquiet : Quiet (node r true (start r scope) i.node) :=
    quiet_node _ _ _ _ (.inl rfl) (.inl rfl)
  have hnode := node_island r (start r scope) hi hcomponent
  refine ⟨fun d hd => ?_⟩
  let inside : Drawing := { d with handlers := [] }
  have hresult : ((node r true (start r scope) i.node).run inside).1 =
      (r.renderIsland scope i).children := hquiet.inner.result _ _ rfl
  have hhandlers : ((node r true (start r scope) i.node).run inside).2.handlers =
      (r.renderIsland scope i).handlers := hquiet.inner.handlers _ _ rfl
  refine ⟨[i], .refl _, ?_, ?_, ?_⟩
  · rw [hnode]
    show (⟨i.id, i.component, ((node r true (start r scope) i.node).run inside).1⟩ : Placeholder) ::
      Node.placeholdersAll ((node r true (start r scope) i.node).run inside).1 ++ [] = _
    rw [hquiet.bare, hresult]
    rfl
  · rw [hnode]
    show ((node r true (start r scope) i.node).run inside).2.islands ++ [i.id] = _
    rw [hquiet.inner.islands]
    rfl
  · rw [hnode]
    show Dict.insert ((node r true (start r scope) i.node).run inside).2.islandHandlers i.id
      ((node r true (start r scope) i.node).run inside).2.handlers = _
    rw [hquiet.inner.islandHandlers, hhandlers]
    exact Dict.insert_of_notMem (hd i List.mem_cons_self) _

/-- What a node draws that is no island, if it is known what is drawn below it. -/
theorem serves_body {islands : List Island} (n : Template.Node)
    (hnodes : Serves r scope islands (nodes r false (start r scope) n.children))
    (hbranch : Serves r scope islands (firstBranch r false (start r scope) n.children))
    (hwhere : ∀ p, Serves r scope islands (firstWhere r false (start r scope) p n.children))
    (hloop : n.isDsl .forEach = true → ∀ v, Quiet (nodes r false v n.children)) :
    Serves r scope islands (body r false (start r scope) n) := by
  unfold body
  split
  · exact hnodes
  · exact Serves.of_quiet (.pure rfl)
  · exact hnodes.element _ _
  · exact Serves.of_quiet (quiet_showVar _ n)
  · exact hbranch
  · exact Serves.bind (inner_switchValue _ n) fun value => hwhere _
  · rename_i htag
    have hdsl : n.isDsl .forEach = true := by
      rw [Template.Node.isDsl, Template.Node.dsl?, htag]
      rfl
    rw [rounds_mapM]
    exact Serves.of_quiet (.bind (inner_roundItems _ n r) fun items =>
      .flatten (fun x => hloop hdsl _) items)
  · exact Serves.bind (inner_buttonAttributes _ n) fun attributes => hnodes.element _ _
  · exact Serves.of_quiet (quiet_field _ n _)
  · exact Serves.of_quiet (quiet_field _ n _)
  · exact Serves.of_quiet (quiet_lifecycle _ n.bindings)
  · exact Serves.of_quiet (quiet_lifecycle _ n.bindings)
  · exact Serves.of_quiet (.pure (placeholders_residentNode _ r _ n.attributes))
  · exact Serves.of_quiet (.pure rfl)

variable (s : Island.Survey)

/-- What stands below a node with its mark: either the node is an island and nothing below it is
marked, or the islands are those below it. -/
theorem serves_children (found : List Island) {n : Template.Node} {islands : List Island}
    (hn : Unmarked false n.children)
    (h : (s.mark found n).2 = (s.markAll found n.children).2 →
      Serves r scope islands (nodes r false (start r scope) (s.markAll found n.children).1)) :
    Serves r scope islands (nodes r false (start r scope) (s.mark found n).1.children) := by
  rw [Island.Survey.mark_eq] at h ⊢
  split at h
  · rename_i hinteractive
    rw [if_pos hinteractive, s.node_islandOf]
    exact .of_quiet (quiet_nodes r false _ n.children hn)
  · rename_i hinert
    rw [if_neg hinert]
    exact h rfl

mutual

/-- A marked tree draws islands that it is marked with. -/
theorem serves_mark (found : List Island) : (n : Template.Node) →
    Unmarked false [n] → {new : List Island} → (s.mark found n).2 = found ++ new →
    Island.Distinct new → Serves r scope new (node r false (start r scope) (s.mark found n).1)
  | ⟨tag, attributes, children, span, bindings, island⟩, hn, new, hnew, hdistinct => by
    rw [Island.Survey.mark_eq] at hnew ⊢
    split at hnew
    · rename_i hinteractive
      rw [if_pos hinteractive]
      rw [← List.append_cancel_left hnew]
      exact serves_island r scope (s.node_islandOf _ _) (s.component_islandOf _ _)
    · rename_i hinert
      rw [if_neg hinert]
      have hisland : island = none := hn.head.1.resolve_left nofun
      subst hisland
      have hnodes := serves_markAll found children hn.head.2 hnew hdistinct
      have hbranch := serves_firstBranch found children hn.head.2 hnew hdistinct
      have hwhere := fun p => serves_firstWhere p found children hn.head.2 hnew hdistinct
      rw [node_eq]
      refine serves_body r scope _ hnodes hbranch hwhere fun hloop v => ?_
      have hnone := s.anyInteractive_children (Bool.eq_false_iff.2 hinert) hloop
      rw [s.markAll_of_not_interactive found children hnone]
      exact quiet_nodes r false v children hn.head.2

/-- A list of marked trees draws islands that it is marked with, in order; the induction is on the
trees. -/
theorem serves_markAll (found : List Island) : (ns : List Template.Node) → Unmarked false ns →
    {new : List Island} → (s.markAll found ns).2 = found ++ new → Island.Distinct new →
    Serves r scope new (nodes r false (start r scope) (s.markAll found ns).1)
  | [], _, new, hnew, hdistinct => .of_quiet (.pure rfl)
  | n :: ns, hns, new, hnew, hdistinct => by
    obtain ⟨first, more, hfirst, hmore, rfl⟩ := s.exists_markAll_cons hnew
    have hboth := hdistinct.of_append
    exact (serves_mark found n hns.single hfirst hboth.1).append
      (serves_markAll _ ns hns.tail hmore hboth.2) hdistinct

theorem serves_firstBranch (found : List Island) : (ns : List Template.Node) → Unmarked false ns →
    {new : List Island} → (s.markAll found ns).2 = found ++ new → Island.Distinct new →
    Serves r scope new (firstBranch r false (start r scope) (s.markAll found ns).1)
  | [], _, new, hnew, hdistinct => .of_quiet (.pure rfl)
  | ⟨tag, attributes, children, span, bindings, island⟩ :: ns, hns, new, hnew, hdistinct => by
    obtain ⟨first, more, hfirst, hmore, rfl⟩ := s.exists_markAll_cons hnew
    have hboth := hdistinct.of_append
    have hrest := serves_firstBranch _ ns hns.tail hmore hboth.2
    have hchildren : Serves r scope first (nodes r false (start r scope)
        (s.mark found ⟨tag, attributes, children, span, bindings, island⟩).1.children) :=
      serves_children r scope s found hns.head.2 fun hmark =>
        serves_markAll found children hns.head.2 (hmark.symm.trans hfirst) hboth.1
    unfold Island.Survey.markAll
    rw [firstBranch_cons]
    split
    · exact .bind (.pure true) (hchildren.choose hrest)
    · exact .bind (inner_condition _ _) (hchildren.choose hrest)

theorem serves_firstWhere (p : Template.Node → Bool) (found : List Island) :
    (ns : List Template.Node) → Unmarked false ns → {new : List Island} →
    (s.markAll found ns).2 = found ++ new → Island.Distinct new →
    Serves r scope new (firstWhere r false (start r scope) p (s.markAll found ns).1)
  | [], _, new, hnew, hdistinct => .of_quiet (.pure rfl)
  | ⟨tag, attributes, children, span, bindings, island⟩ :: ns, hns, new, hnew, hdistinct => by
    obtain ⟨first, more, hfirst, hmore, rfl⟩ := s.exists_markAll_cons hnew
    have hboth := hdistinct.of_append
    have hrest := serves_firstWhere p _ ns hns.tail hmore hboth.2
    have hchildren : Serves r scope first (nodes r false (start r scope)
        (s.mark found ⟨tag, attributes, children, span, bindings, island⟩).1.children) :=
      serves_children r scope s found hns.head.2 fun hmark =>
        serves_markAll found children hns.head.2 (hmark.symm.trans hfirst) hboth.1
    unfold Island.Survey.markAll
    rw [firstWhere_cons]
    exact hchildren.choose hrest _

end

/-- What a page shows of its islands. -/
theorem exists_shown {c : Config} {src : String} {t : Template} (hsize : src.utf8ByteSize < 2 ^ 63)
    (h : (compile c src).template? = some t) (r : Renderer) (scope : Scope) :
    ∃ shown : List Island, shown.Sublist t.islands ∧
      (r.render scope t.root).islands = shown.map (·.id) ∧
      (r.render scope t.root).root.placeholders = shown.map (placeholderOf r scope) ∧
      (r.render scope t.root).handlers = shown.map (handlersOf r scope) := by
  have hdistinct := Compile.distinct_of_compile hsize h
  obtain ⟨raw, nodes, declared, -, hformed, -, -, -, hextract⟩ := Compile.exists_tree h
  obtain ⟨hroot, hislands⟩ := Prod.mk.inj hextract
  have hunmarked : Unmarked false [Template.Node.fragment nodes] := by
    refine .inr fun n hn => ?_
    simp only [Template.Node.walkAll, List.append_nil] at hn
    rcases List.mem_cons.1 hn with rfl | hn
    · rfl
    · exact (hformed.nodes n hn).unmarked
  have hserves : Serves r scope t.islands (node r false (start r scope) t.root) := by
    rw [hroot]
    exact serves_mark r scope _ [] _ hunmarked hislands.symm hdistinct
  obtain ⟨shown, hsub, hplaces, hshown, hhandlers⟩ := hserves.draws {} fun i _ hi => by cases hi
  exact ⟨shown, hsub, hshown, hplaces, hhandlers⟩

/-- A page shows some of the islands of its template, each of them once and in order, and each as
it is rendered on its own in the same scope. A text in memory is shorter than `2 ^ 63` bytes. -/
theorem render_serves {c : Config} {src : String} {t : Template} (hsize : src.utf8ByteSize < 2 ^ 63)
    (h : (compile c src).template? = some t) (r : Renderer) (scope : Scope) :
    ∃ shown : List Island, shown.Sublist t.islands ∧
      (r.render scope t.root).islands = shown.map (·.id) ∧
      (r.render scope t.root).islands.Nodup ∧
      (r.render scope t.root).root.placeholders = shown.map (placeholderOf r scope) ∧
      (r.render scope t.root).handlers = shown.map (handlersOf r scope) := by
  obtain ⟨shown, hsub, hids, hplaces, hhandlers⟩ := exists_shown hsize h r scope
  refine ⟨shown, hsub, hids, ?_, hplaces, hhandlers⟩
  rw [hids]
  exact (Compile.distinct_of_compile hsize h).sublist (hsub.map _)

/-- A guest sees what the resident tells, anyone else a field. -/
def doorMarkup : String :=
  "<Var name=\"n\" initial=\"old\"/><If var=\"$resident.guest\"><Bio/></If>"
    ++ "<Else><TextInput var=\"n\"/></Else>"

/-- Nobody is known, and no variable has a value. -/
def nobody : Scope := ⟨fun _ => none, .undefined⟩

/-- One of the two islands of a page is shown, and it shows what it shows on its own. -/
theorem render_serves_door :
    ∃ t, (compile {} doorMarkup).template? = some t ∧ t.islands.length = 2 ∧
      ∃ shown : List Island, shown.length = 1 ∧ shown.Sublist t.islands ∧
        ((Renderer.ofConfig {}).render nobody t.root).root.placeholders =
          shown.map (placeholderOf (Renderer.ofConfig {}) nobody) := by
  have ht : ((compile {} doorMarkup).template?.map fun t =>
      decide (t.islands.length = 2 ∧
        ((Renderer.ofConfig {}).render nobody t.root).islands.length = 1)) = some true := by
    decide +kernel
  obtain ⟨t, htemplate, ht⟩ := Option.map_eq_some_iff.1 ht
  obtain ⟨hlength, hone⟩ := of_decide_eq_true ht
  obtain ⟨shown, hsub, hislands, -, hplaces, -⟩ :=
    render_serves (by decide +kernel) htemplate (Renderer.ofConfig {}) nobody
  rw [hislands, List.length_map] at hone
  exact ⟨t, htemplate, hlength, shown, hone, hsub, hplaces⟩

end

end Page

end Archipelago
