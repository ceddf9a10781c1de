import Archipelago.Proofs.Page.Coverage
import Archipelago.Proofs.Template.Walk

/-!
# Trees without choices

What a rendering goes past is a matter of the data only where it chooses: in chains, in switches and
in loops. Without those an island has the same handlers in every rendering.
-/

namespace Archipelago

namespace Template.Node

/-- The data tell which of the nodes below are rendered, or how often. -/
def chooses (n : Node) : Bool := n.isDsl .ifChain || n.isDsl .switch || n.isDsl .forEach

end Template.Node

namespace Page

/-- To draw this adds these handlers. -/
def Hands (hs : List Handler) {α : Type} (x : Draw α) : Prop :=
  ∀ d : Drawing, (x.run d).2.handlers = d.handlers ++ hs

namespace Hands

variable {α β : Type} {hs hs' : List Handler}

theorem pure (a : α) : Hands [] (Pure.pure a : Draw α) := fun _ => (List.append_nil _).symm

theorem bind {x : Draw α} {f : α → Draw β} (hx : Hands hs x) (hf : ∀ a, Hands hs' (f a)) :
    Hands (hs ++ hs') (x >>= f) := fun d => by
  show ((f (x.run d).1).run (x.run d).2).2.handlers = _
  rw [hf, hx, List.append_assoc]

/-- What is made of a result adds nothing. -/
theorem map {x : Draw α} (hx : Hands hs x) (f : α → β) : Hands hs (do return f (← x)) := by
  have h := hx.bind fun a => .pure (f a)
  rwa [List.append_nil] at h

theorem warn (n : Template.Node) (t : Trouble) : Hands [] (Page.warn n t) :=
  fun _ => (List.append_nil _).symm

theorem addHandler (h : Handler) : Hands [h] (Page.addHandler h) := fun _ => rfl

end Hands

section Parts

variable {n : Template.Node}

theorem hands_showVar (v : View) : Hands [] (showVar v n) := by
  unfold showVar
  split
  · exact .pure _
  · dsimp only
    split
    · exact .pure _
    · exact (Hands.warn n _).bind fun _ => .pure _

theorem hands_condition (v : View) : Hands [] (condition v n) := by
  unfold condition
  split
  · exact .pure _
  · exact (Hands.warn n _).bind fun _ => .pure _

theorem hands_switchValue (v : View) : Hands [] (switchValue v n) := by
  unfold switchValue
  dsimp only
  split
  · exact .pure _
  · exact (Hands.warn n _).bind fun _ => .pure _

theorem hands_roundItems (r : Renderer) (v : View) : Hands [] (roundItems r v n) := by
  unfold roundItems
  split
  · exact .pure _
  · rename_i path _
    have hitems : Hands [] (loopItems v n path) := by
      unfold loopItems
      split
      · exact .pure _
      · dsimp only
        split
        · exact (Hands.warn n _).bind fun _ => .pure _
        · exact .pure _
      · exact (Hands.warn n _).bind fun _ => .pure _
    refine hitems.bind fun items => ?_
    dsimp only
    split
    · exact (Hands.warn n _).bind fun _ => .pure _
    · exact .pure _

theorem hands_buttonAttributes (locals : Locals) : ∃ hs, ∀ v : View, v.locals = locals →
    Hands hs (buttonAttributes v n) := by
  by_cases hb : n.bindings.isEmpty = true
  · refine ⟨[], fun v _ => ?_⟩
    unfold buttonAttributes
    simp only [hb, if_true]
    exact .pure _
  · refine ⟨[{ kind := .click, actions := bindingActions n, locals := locals.flatten }],
      fun v hv => ?_⟩
    unfold buttonAttributes
    simp only [hb, hv]
    exact (Hands.addHandler _).map _

theorem hands_field (locals : Locals) (checkbox : Bool) : ∃ hs, ∀ v : View, v.locals = locals →
    Hands hs (field v n checkbox) := by
  cases hvar : n.attr? "var" with
  | none =>
    refine ⟨[], fun v _ => ?_⟩
    unfold field
    rw [hvar]
    exact .pure _
  | some var =>
    refine ⟨[{ kind := .change, actions := bindingActions n, input := some ⟨var, checkbox⟩
               locals := locals.flatten }], fun v hv => ?_⟩
    unfold field
    rw [hvar, hv]
    exact (Hands.addHandler _).map _

theorem hands_lifecycle (locals : Locals) (bs : List EventBinding) :
    ∃ hs, ∀ v : View, v.locals = locals → Hands hs (lifecycle v bs) := by
  induction bs with
  | nil => exact ⟨[], fun v _ => .pure _⟩
  | cons b bs ih =>
    obtain ⟨hs, ih⟩ := ih
    refine ⟨{ kind := b.kind, intervalMs := b.intervalMs, actions := b.actions
              locals := locals.flatten } :: hs, fun v hv => ?_⟩
    unfold lifecycle
    rw [hv]
    exact ((Hands.addHandler _).map _).bind fun _ => ih v hv

end Parts

theorem enclose_inside (island : Option String) (component : String) (content : Draw (List Node)) :
    enclose island true component content = content := by
  cases island with
  | none => rfl
  | some id => rfl

mutual

/-- A node without choices adds the same handlers wherever the same names are bound. -/
theorem hands_node (r : Renderer) (locals : Locals) : (n : Template.Node) →
    (∀ m ∈ n.walk, m.chooses = false) →
      ∃ hs, ∀ v : View, v.locals = locals → Hands hs (node r true v n)
  | ⟨tag, attributes, children, span, bindings, island⟩, h => by
    simp only [node_eq, enclose_inside]
    obtain ⟨hn, hchildren⟩ := Template.Node.forall_walk.1 h
    obtain ⟨hs, hnodes⟩ := hands_nodes r locals children hchildren
    cases tag with
    | fragment => exact ⟨hs, hnodes⟩
    | text content => exact ⟨[], fun v _ => .pure _⟩
    | html name => exact ⟨hs, fun v hv => (hnodes v hv).map _⟩
    | dsl t =>
      cases t with
      | showVar => exact ⟨[], fun v _ => hands_showVar v⟩
      | ifChain => cases hn
      | switch => cases hn
      | forEach => cases hn
      | button =>
        obtain ⟨own, hown⟩ :=
          hands_buttonAttributes (n := ⟨.dsl .button, attributes, children, span,
          bindings, island⟩) locals
        exact ⟨own ++ hs, fun v hv => (hown v hv).bind fun _ => (hnodes v hv).map _⟩
      | textInput => exact hands_field locals false
      | checkbox => exact hands_field locals true
      | event e =>
        cases e with
        | onMount => exact hands_lifecycle locals bindings
        | onInterval => exact hands_lifecycle locals bindings
        | onClick => exact ⟨[], fun v _ => .pure _⟩
        | onChange => exact ⟨[], fun v _ => .pure _⟩
      | _ => exact ⟨[], fun v _ => .pure _⟩

theorem hands_nodes (r : Renderer) (locals : Locals) : (ns : List Template.Node) →
    (∀ m ∈ Template.Node.walkAll ns, m.chooses = false) →
      ∃ hs, ∀ v : View, v.locals = locals → Hands hs (nodes r true v ns)
  | [], _ => ⟨[], fun v _ => .pure _⟩
  | n :: ns, h => by
    obtain ⟨hn, hchildren, hrest⟩ := Template.Node.forall_walkAll_cons.1 h
    obtain ⟨hs, hfirst⟩ := hands_node r locals n (Template.Node.forall_walk.2 ⟨hn, hchildren⟩)
    obtain ⟨hs', hmore⟩ := hands_nodes r locals ns hrest
    refine ⟨hs ++ hs', fun v hv => ?_⟩
    unfold nodes
    exact (hfirst v hv).bind fun _ => (hmore v hv).map _

end

/-- An island without choices has the same handlers in every rendering. -/
theorem Renderer.handlers_of_fixed (r : Renderer) {i : Island}
    (h : ∀ n ∈ i.node.walk, n.chooses = false) (a b : Scope) :
    (r.renderIsland a i).handlers = (r.renderIsland b i).handlers := by
  obtain ⟨hs, hall⟩ := hands_node r [] i.node h
  exact (hall { limits := r.eval, scope := a } rfl {}).trans
    (hall { limits := r.eval, scope := b } rfl {}).symm

end Page

end Archipelago
