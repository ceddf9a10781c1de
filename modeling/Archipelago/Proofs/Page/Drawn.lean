import Archipelago.Proofs.Page.Islands

/-!
# What a page is drawn from

A page has only texts, the markup of components, elements that authors write and the elements of
controls in it. So an element of a page has what all elements of its template have, or it is one of
a control. No island on a page has another one in it.
-/

namespace Archipelago

namespace Page

/-- The elements of controls. -/
def controlTags : List String := ["button", "input", "label", "div"]

/-- The attributes that controls can have. -/
def controlNames : List String :=
  ["type", "class", "data-tessera-on", "checked", "value", "placeholder", "data-tessera-input",
    componentAttr]

/-- An element of a control, whatever the values of its attributes are. -/
structure Control (tag : String) (attributes : Dict String) : Prop where
  tag : tag ∈ controlTags
  names : Dict.keys attributes ⊆ controlNames

/-- Nodes whose elements have a property or are those of controls, and whose islands hold no further
ones. -/
inductive Drawn (P : String → Dict String → Prop) : List Node → Prop
  | nil : Drawn P []
  | append {ns ms : List Node} (h : Drawn P ns) (more : Drawn P ms) : Drawn P (ns ++ ms)
  | text (content : String) : Drawn P [.text content]
  | raw (html : String) : Drawn P [.raw html]
  | element {tag : String} {attributes : Dict String} {children : List Node}
    (h : P tag attributes) (below : Drawn P children) : Drawn P [.element tag attributes children]
  | control {tag : String} {attributes : Dict String} {children : List Node}
    (h : Control tag attributes) (below : Drawn P children) :
    Drawn P [.element tag attributes children]
  | island {children : List Node} (id component : String) (inside : Drawn P children)
    (hbare : Node.placeholdersAll children = []) : Drawn P [.island id component children]

variable {P : String → Dict String → Prop}

/-- A step that draws such nodes, wherever it starts. -/
def Draws (P : String → Dict String → Prop) (x : Draw (List Node)) : Prop :=
  ∀ d, Drawn P (x.run d).1

namespace Draws

variable {α : Type} {x y : Draw (List Node)}

theorem pure {ns : List Node} (h : Drawn P ns) : Draws P (Pure.pure ns) := fun _ => h

theorem bind {x : Draw α} {f : α → Draw (List Node)} (h : ∀ a, Draws P (f a)) :
    Draws P (x >>= f) := fun d => h (x.run d).1 (x.run d).2

theorem append (hx : Draws P x) (hy : Draws P y) : Draws P (do return (← x) ++ (← y)) :=
  fun d => .append (hx d) (hy (x.run d).2)

theorem element (hx : Draws P x) {tag : String} {attributes : Dict String}
    (h : P tag attributes) : Draws P (do return [.element tag attributes (← x)]) :=
  fun d => .element h (hx d)

theorem flatten {f : α → Draw (List Node)} (h : ∀ a, Draws P (f a)) (xs : List α) :
    Draws P (do return (← xs.mapM f).flatten) := by
  induction xs with
  | nil => exact .pure .nil
  | cons x xs ih =>
    intro d
    rw [List.mapM_cons]
    exact .append (h x d) (ih _)

/-- The root of an island holds what is drawn in it, and no further island. -/
theorem enclose (hx : Draws P x) (hbare : Bare x) (island : Option String) (inside : Bool)
    (component : String) : Draws P (enclose island inside component x) := by
  cases island with
  | none => exact hx
  | some id =>
    cases inside with
    | true => exact hx
    | false => exact fun d => .island id component (hx _) (hbare _)

end Draws

/-! ## The parts of a page -/

section Parts

variable (v : View) (n : Template.Node)

theorem draws_showVar : Draws P (showVar v n) := by
  unfold showVar
  split
  · exact .pure .nil
  · dsimp only
    split
    · exact .pure (.text _)
    · exact .bind fun _ => .pure (.text _)

theorem draws_lifecycle (bs : List EventBinding) : Draws P (lifecycle v bs) := by
  induction bs with
  | nil => exact .pure .nil
  | cons b bs ih => exact .bind fun _ => ih

theorem keys_append_subset {d e : Dict String} {names : List String} (hd : Dict.keys d ⊆ names)
    (he : Dict.keys e ⊆ names) : Dict.keys (d ++ e) ⊆ names := by
  unfold Dict.keys at *
  rw [List.map_append]
  exact List.append_subset.2 ⟨hd, he⟩

/-- Only attributes of this name are passed on. -/
theorem keys_passed_subset {name : String} {names : List String} (h : name ∈ names) :
    Dict.keys (passed n name) ⊆ names := by
  unfold passed
  split
  · exact List.cons_subset.2 ⟨h, List.nil_subset _⟩
  · exact List.nil_subset _

theorem keys_fieldAttributes_subset (checkbox : Bool) (value : Value) :
    Dict.keys (fieldAttributes n checkbox value) ⊆ controlNames := by
  unfold fieldAttributes
  split
  · split
    · exact (by decide : ["type", "checked"] ⊆ controlNames)
    · exact (by decide : ["type"] ⊆ controlNames)
  · refine keys_append_subset ?_ (keys_passed_subset n (by decide))
    exact (by decide : ["type", "value"] ⊆ controlNames)

theorem draws_field (checkbox : Bool) : Draws P (field v n checkbox) := by
  unfold field
  split
  · exact .pure .nil
  · rename_i var _
    refine .bind fun place => ?_
    dsimp only
    have hinput : Drawn P [.element "input"
        (fieldAttributes n checkbox ((v.scope.lookup var).getD .undefined) ++ passed n "class"
          ++ [("data-tessera-input", toString place)]) []] := by
      refine .control ⟨by decide, ?_⟩ .nil
      refine keys_append_subset ?_ (by decide : ["data-tessera-input"] ⊆ controlNames)
      exact keys_append_subset (keys_fieldAttributes_subset n _ _)
        (keys_passed_subset n (by decide))
    split
    · exact .pure (.control ⟨by decide, List.nil_subset _⟩ (.append hinput (.text _)))
    · exact .pure hinput

theorem keys_buttonAttributes_subset (d : Drawing) :
    Dict.keys ((buttonAttributes v n).run d).1 ⊆ controlNames := by
  have htype : Dict.keys (("type", "button") :: passed n "class") ⊆ controlNames :=
    List.cons_subset.2 ⟨by decide, keys_passed_subset n (by decide)⟩
  unfold buttonAttributes
  dsimp only
  split
  · exact htype
  · exact keys_append_subset htype (by decide : ["data-tessera-on"] ⊆ controlNames)

theorem drawn_residentNode (r : Renderer) (t : ResidentTag) (attributes : Dict String) :
    Drawn P [residentNode r v t attributes] := by
  unfold residentNode
  split
  · exact .raw _
  · exact .control ⟨by decide, (by decide : [componentAttr] ⊆ controlNames)⟩ .nil

end Parts

/-! ## Trees -/

/-- A node that is no element, or one with the property. -/
def Offers (P : String → Dict String → Prop) (n : Template.Node) : Prop :=
  ∀ name, n.tag = .html name → P name n.attributes

/-- What a node draws has the property, if what is below it has it. -/
theorem draws_body (r : Renderer) (inner : Bool) (v : View) (n : Template.Node) (hn : Offers P n)
    (hnodes : ∀ v, Draws P (nodes r inner v n.children))
    (hbranch : Draws P (firstBranch r inner v n.children))
    (hwhere : ∀ p, Draws P (firstWhere r inner v p n.children)) : Draws P (body r inner v n) := by
  obtain ⟨tag, attributes, children, span, bindings, island⟩ := n
  cases tag with
  | fragment => exact hnodes v
  | text content => exact .pure (.text content)
  | html name => exact (hnodes v).element (hn name rfl)
  | dsl t =>
    cases t with
    | showVar => exact draws_showVar v _
    | ifChain => exact hbranch
    | switch => exact .bind fun value => hwhere _
    | forEach => exact .bind fun views => .flatten hnodes views
    | button =>
      refine fun d => .control ⟨by decide, ?_⟩ (hnodes v _)
      exact keys_buttonAttributes_subset v _ d
    | textInput | checkbox => exact draws_field v _ _
    | event e =>
      cases e with
      | onMount | onInterval => exact draws_lifecycle v bindings
      | onClick | onChange => exact .pure .nil
    | resident t => exact .pure (drawn_residentNode v r t attributes)
    | _ => exact .pure .nil

mutual

/-- What holds of every piece of markup that a node offers holds of all that is drawn of it. What is
inside an island is drawn without a further one. -/
theorem draws_node (r : Renderer) (inside : Bool) (v : View) : (n : Template.Node) → Offers P n →
    (∀ m ∈ Template.Node.walkAll n.children, Offers P m) → Draws P (node r inside v n)
  | ⟨tag, attributes, children, span, bindings, island⟩, hn, hc => by
    have hbody := fun inner => draws_body r inner v
      ⟨tag, attributes, children, span, bindings, island⟩ hn
      (fun v => draws_nodes r inner v children hc) (draws_firstBranch r inner v children hc)
      fun p => draws_firstWhere r inner v p children hc
    rw [node_eq]
    cases island with
    | none => exact hbody _
    | some id =>
      rw [Option.isSome_some, Bool.or_true]
      refine (hbody true).enclose ?_ _ _ _
      have hinner := quiet_node r true v
        ⟨tag, attributes, children, span, bindings, some id⟩ (.inl rfl) (.inl rfl)
      rw [node_eq] at hinner
      exact hinner.bare

theorem draws_nodes (r : Renderer) (inside : Bool) (v : View) : (ns : List Template.Node) →
    (∀ m ∈ Template.Node.walkAll ns, Offers P m) → Draws P (nodes r inside v ns)
  | [], _ => .pure .nil
  | n :: ns, h => by
    obtain ⟨hn, hchildren, hns⟩ := Template.Node.forall_walkAll_cons.1 h
    exact (draws_node r inside v n hn hchildren).append (draws_nodes r inside v ns hns)

theorem draws_firstBranch (r : Renderer) (inside : Bool) (v : View) : (ns : List Template.Node) →
    (∀ m ∈ Template.Node.walkAll ns, Offers P m) → Draws P (firstBranch r inside v ns)
  | [], _ => .pure .nil
  | ⟨tag, attributes, children, span, bindings, island⟩ :: ns, h => by
    obtain ⟨-, hchildren, hns⟩ := Template.Node.forall_walkAll_cons.1 h
    have hnext : ∀ taken : Bool, Draws P
        (if taken then nodes r inside v children else firstBranch r inside v ns) := by
      intro taken
      cases taken with
      | true => exact draws_nodes r inside v children hchildren
      | false => exact draws_firstBranch r inside v ns hns
    rw [firstBranch_cons]
    split
    · exact .bind hnext
    · exact .bind hnext

theorem draws_firstWhere (r : Renderer) (inside : Bool) (v : View) (p : Template.Node → Bool) :
    (ns : List Template.Node) → (∀ m ∈ Template.Node.walkAll ns, Offers P m) →
    Draws P (firstWhere r inside v p ns)
  | [], _ => .pure .nil
  | ⟨tag, attributes, children, span, bindings, island⟩ :: ns, h => by
    obtain ⟨-, hchildren, hns⟩ := Template.Node.forall_walkAll_cons.1 h
    rw [firstWhere_cons]
    split
    · exact draws_nodes r inside v children hchildren
    · exact draws_firstWhere r inside v p ns hns

end

/-- What holds of the elements of a tree holds of all that is drawn of it but controls. -/
theorem drawn_draw (r : Renderer) (inside : Bool) (scope : Scope) {root : Template.Node}
    (h : ∀ n ∈ root.walk, Offers P n) : Drawn P (r.draw inside scope root).1 := by
  obtain ⟨hroot, hbelow⟩ := Template.Node.forall_walk.1 h
  exact draws_node r inside _ root hroot hbelow {}

/-!
## Pages without false places of islands

Elements that authors write have no attributes that are reserved, and the elements of controls have
none that name an island. So an element of a page is the place of an island only if it is one.
-/

namespace Node

mutual

/-- No element takes itself for the place of an island, and no island lies inside another one. -/
def Clear : Node → Prop
  | text _ | raw _ => True
  | fragment children => ClearAll children
  | element _ attributes children => islandAttr ∉ Dict.keys attributes ∧ ClearAll children
  | island _ _ children => placeholdersAll children = []

def ClearAll : List Node → Prop
  | [] => True
  | n :: ns => Clear n ∧ ClearAll ns

end

theorem clearAll_iff {ns : List Node} : ClearAll ns ↔ ∀ n ∈ ns, Clear n := by
  induction ns with
  | nil => simp [ClearAll]
  | cons n ns ih => simp [ClearAll, ih]

end Node

/-- What is drawn is clear if no element but a control can name an island. -/
theorem clearAll_of_drawn {ns : List Node}
    (h : Drawn (fun _ attributes => islandAttr ∉ Dict.keys attributes) ns) : Node.ClearAll ns := by
  induction h with
  | nil => exact True.intro
  | append _ _ ih more =>
    rw [Node.clearAll_iff] at *
    exact List.forall_mem_append.2 ⟨ih, more⟩
  | text | raw => exact ⟨True.intro, True.intro⟩
  | element h _ ih => exact ⟨⟨h, ih⟩, True.intro⟩
  | control h _ ih =>
    have hname : islandAttr ∉ controlNames := by decide
    exact ⟨⟨fun hm => hname (h.names hm), ih⟩, True.intro⟩
  | island _ _ _ hbare => exact ⟨hbare, True.intro⟩

/-- An element that does not take itself for the place of an island. -/
def Neutral (n : Template.Node) : Prop :=
  ∀ name, n.tag = .html name → islandAttr ∉ Dict.keys n.attributes

/-- The page of a neutral tree is clear. -/
theorem clear_render (r : Renderer) (scope : Scope) {root : Template.Node}
    (h : ∀ n ∈ root.walk, Neutral n) : (r.render scope root).root.Clear :=
  clearAll_of_drawn (drawn_draw r false scope h)

end Page

end Archipelago
