import Archipelago.Proofs.Compile.Chains
import Archipelago.Proofs.Page.Choices
import Archipelago.Proofs.Page.Rereading
import Archipelago.Proofs.Page.Static

/-!
# Elements that point at handlers

A control is drawn as an element with the place of its handler among the handlers of its island. The
handlers of mounts and intervals stand among the others, and nothing points at them. What carries
the proof is that elements and handlers are drawn in step: the elements that point, in the order of
the page, and the handlers that are pointed at go one with the other, each pair drawn at one node.
-/

namespace Archipelago

namespace Page

/-! ## Pointers -/

/-- The attributes that point at a handler. -/
def pointerAttrs : List String := ["data-tessera-on", "data-tessera-input"]

/-- Those among the attributes of an element. -/
def pointersOf (attributes : Dict String) : Dict String :=
  attributes.filter fun a => a.1 ∈ pointerAttrs

section

variable {attributes : Dict String}

theorem pointersOf_append (d e : Dict String) :
    pointersOf (d ++ e) = pointersOf d ++ pointersOf e := List.filter_append _ _

theorem mem_pointersOf {a : String × String} :
    a ∈ pointersOf attributes ↔ a ∈ attributes ∧ a.1 ∈ pointerAttrs := by
  rw [pointersOf, List.mem_filter, decide_eq_true_iff]

/-- Attributes point at nothing if none of them is a pointer. -/
theorem pointersOf_eq_nil : pointersOf attributes = [] ↔ ∀ a ∈ attributes, a.1 ∉ pointerAttrs := by
  rw [pointersOf, List.filter_eq_nil_iff]
  simp only [decide_eq_true_eq]

/-- An attribute that is passed on from a tag is no pointer. -/
theorem pointersOf_passed (n : Template.Node) {name : String} (h : name ∉ pointerAttrs) :
    pointersOf (passed n name) = [] := by
  rw [pointersOf_eq_nil]
  unfold passed
  split
  · exact List.forall_mem_singleton.2 h
  · exact List.forall_mem_nil _

theorem pointersOf_button (n : Template.Node) :
    pointersOf (("type", "button") :: passed n "class") = [] := by
  show pointersOf ([("type", "button")] ++ passed n "class") = []
  rw [pointersOf_append, pointersOf_passed n (by decide)]
  rfl

/-- The value of a field is no pointer. -/
theorem pointersOf_fieldAttributes (n : Template.Node) (checkbox : Bool) (value : Value) :
    pointersOf (fieldAttributes n checkbox value) = [] := by
  unfold fieldAttributes
  split
  · split
    · rfl
    · rfl
  · rw [pointersOf_append, pointersOf_passed n (by decide)]
    rfl

theorem pointersOf_pointingButton (n : Template.Node) (place : String) :
    pointersOf (("type", "button") :: passed n "class" ++ [("data-tessera-on", place)]) =
      [("data-tessera-on", place)] := by
  rw [pointersOf_append, pointersOf_button]
  rfl

theorem pointersOf_pointingField (n : Template.Node) (checkbox : Bool) (value : Value)
    (place : String) : pointersOf (fieldAttributes n checkbox value ++ passed n "class"
        ++ [("data-tessera-input", place)]) = [("data-tessera-input", place)] := by
  rw [pointersOf_append, pointersOf_append, pointersOf_fieldAttributes,
    pointersOf_passed n (by decide)]
  rfl

/-- Authors cannot write pointers. -/
theorem pointersOf_of_safe (h : ∀ a ∈ attributes, unsafeReason? a.1 a.2 = none) :
    pointersOf attributes = [] := by
  refine pointersOf_eq_nil.2 fun a ha hname => ?_
  have hsafe := h a ha
  rcases List.mem_pair.1 hname with hname | hname
  all_goals
    unfold unsafeReason? at hsafe
    rw [hname, if_neg (by decide), if_pos (by decide)] at hsafe
    cases hsafe

end

/-- The elements that point, in the order of the page. -/
def pointing (ns : List Node) : List (String × Dict String) :=
  (Node.elementsAll ns).filter fun e => pointersOf e.2 ≠ []

/-- All that elements of a page point at. -/
def pointers (ns : List Node) : Dict String := (Node.elementsAll ns).flatMap fun e => pointersOf e.2

theorem pointing_append (ns ms : List Node) : pointing (ns ++ ms) = pointing ns ++ pointing ms := by
  rw [pointing, Node.elementsAll_append, List.filter_append]
  rfl

/-- An element is among those that point if it has a pointer. -/
theorem pointing_element (tag : String) (attributes : Dict String) (children : List Node) :
    pointing [.element tag attributes children] =
      if pointersOf attributes = [] then pointing children
      else (tag, attributes) :: pointing children := by
  rw [pointing, Node.elementsAll_singleton, Node.elements, List.filter_cons]
  by_cases h : pointersOf attributes = []
  · simp only [h, ne_eq, not_true_eq_false, decide_false, Bool.false_eq_true, if_false, if_true]
    rfl
  · simp only [h, ne_eq, not_false_eq_true, decide_true, if_true, if_false]
    rfl

theorem pointers_eq (ns : List Node) :
    pointers ns = (pointing ns).flatMap fun e => pointersOf e.2 := by
  unfold pointers pointing
  induction Node.elementsAll ns with
  | nil => rfl
  | cons e es ih =>
    rw [List.flatMap_cons, List.filter_cons, ih]
    split
    · rw [List.flatMap_cons]
    · rename_i h
      rw [show pointersOf e.2 = [] by simpa using h, List.nil_append]

/-- A click or a change calls the handler. -/
def Handler.isPointedAt (h : Handler) : Bool := h.kind = .click || h.kind = .change

/-- The handlers that elements point at, with their places, if the first place is `start`. -/
def pointedAt (hs : List Handler) (start : Nat) : List (Handler × Nat) :=
  (hs.zipIdx start).filter fun x => x.1.isPointedAt

/-- The handlers behind others are counted on. -/
theorem pointedAt_append (hs hs' : List Handler) (start : Nat) :
    pointedAt (hs ++ hs') start = pointedAt hs start ++ pointedAt hs' (start + hs.length) := by
  rw [pointedAt, List.zipIdx_append, List.filter_append]
  rfl

/-! ## Elements and handlers in step -/

/-- The element that points at this place for a node. -/
def Points (v : View) (n : Template.Node) (place : Nat) (e : String × Dict String) : Prop :=
  match n.dsl? with
  | some .button =>
    e = ("button",
      ("type", "button") :: passed n "class" ++ [("data-tessera-on", toString place)])
  | some .textInput | some .checkbox =>
    ∃ var, n.attr? "var" = some var ∧
      e = ("input", fieldAttributes n (n.isDsl .checkbox) ((v.scope.lookup var).getD .undefined)
        ++ passed n "class" ++ [("data-tessera-input", toString place)])
  | _ => False

/-- An element and the handler that it points at, drawn at one node on the way of a rendering. -/
def Wire (v₀ : View) (root : Template.Node) (e : String × Dict String) (x : Handler × Nat) : Prop :=
  ∃ v n, Visits v₀ root v n ∧ Makes v n x.1 ∧ Points v n x.2 e

/-- To draw this adds elements and handlers in step. -/
def Wires (v₀ : View) (root : Template.Node) (x : Draw (List Node)) : Prop :=
  ∀ d, ∃ hs, (x.run d).2.handlers = d.handlers ++ hs ∧
    List.Forall₂ (Wire v₀ root) (pointing (x.run d).1) (pointedAt hs d.handlers.length)

section

variable {v₀ : View} {root : Template.Node} {α : Type} {x y : Draw (List Node)}

namespace Wires

/-- Elements without pointers need no handlers. -/
theorem pure {ns : List Node} (h : pointing ns = []) : Wires v₀ root (Pure.pure ns) := fun _ =>
  ⟨[], (List.append_nil _).symm, show List.Forall₂ _ (pointing ns) [] from h ▸ .nil⟩

/-- A step that adds no handlers may come first. -/
theorem bind {x : Draw α} {f : α → Draw (List Node)} (hx : Hands [] x)
    (h : ∀ a, Wires v₀ root (f a)) : Wires v₀ root (x >>= f) := by
  intro d
  obtain ⟨hs, hhandlers, hpairs⟩ := h (x.run d).1 (x.run d).2
  rw [hx d, List.append_nil] at hhandlers hpairs
  exact ⟨hs, hhandlers, hpairs⟩

/-- Pieces next to each other: the handlers of the second come behind those of the first. -/
theorem append (hx : Wires v₀ root x) (hy : Wires v₀ root y) :
    Wires v₀ root (do return (← x) ++ (← y)) := by
  intro d
  obtain ⟨hs, hhandlers, hpairs⟩ := hx d
  obtain ⟨hs', hhandlers', hpairs'⟩ := hy (x.run d).2
  rw [hhandlers, List.length_append] at hpairs'
  refine ⟨hs ++ hs', ?_, ?_⟩
  · rw [← List.append_assoc, ← hhandlers]
    exact hhandlers'
  · rw [pointedAt_append]
    show List.Forall₂ _ (pointing ((x.run d).1 ++ (y.run (x.run d).2).1)) _
    rw [pointing_append]
    exact List.rel_append hpairs hpairs'

theorem element (hx : Wires v₀ root x) (tag : String) {attributes : Dict String}
    (h : pointersOf attributes = []) :
    Wires v₀ root (do return [.element tag attributes (← x)]) := by
  intro d
  obtain ⟨hs, hhandlers, hpairs⟩ := hx d
  refine ⟨hs, hhandlers, ?_⟩
  show List.Forall₂ _ (pointing [.element tag attributes (x.run d).1]) _
  rwa [pointing_element, if_pos h]

theorem flatten {f : α → Draw (List Node)} (h : ∀ a, Wires v₀ root (f a)) (xs : List α) :
    Wires v₀ root (do return (← xs.mapM f).flatten) := by
  induction xs with
  | nil => exact .pure rfl
  | cons x xs ih =>
    intro d
    rw [List.mapM_cons]
    exact (h x).append ih d

/-- Nobody points at what only a mount or an interval calls. -/
theorem lifecycle (v : View) {bs : List EventBinding}
    (h : ∀ b ∈ bs, b.kind = .mount ∨ b.kind = .interval) : Wires v₀ root (lifecycle v bs) := by
  induction bs with
  | nil => exact .pure rfl
  | cons b bs ih =>
    obtain ⟨hb, hbs⟩ := List.forall_mem_cons.1 h
    intro d
    let handler : Handler :=
      { kind := b.kind, intervalMs := b.intervalMs, actions := b.actions
        locals := v.locals.flatten }
    have hskip : handler.isPointedAt = false := by
      show (b.kind = .click || b.kind = .change) = false
      rcases hb with hb | hb
      all_goals rw [hb]; rfl
    obtain ⟨hs, hhandlers, hpairs⟩ := ih hbs { d with handlers := d.handlers ++ [handler] }
    refine ⟨handler :: hs, hhandlers.trans (List.append_assoc _ _ _), ?_⟩
    · rw [pointedAt, List.zipIdx_cons, List.filter_cons, hskip, if_neg Bool.false_ne_true]
      rw [List.length_append] at hpairs
      exact hpairs

end Wires

/-! ## The parts of a page -/

section Parts

variable {v : View} {n : Template.Node}

theorem wires_showVar : Wires v₀ root (showVar v n) := by
  unfold showVar
  split
  · exact .pure rfl
  · dsimp only
    split
    · exact .pure rfl
    · exact .bind (.warn n _) fun _ => .pure rfl

/-- A button points at its handler, and what is drawn in it comes behind. -/
theorem wires_button (hv : Visits v₀ root v n) (hn : n.dsl? = some .button)
    (hx : Wires v₀ root x) : Wires v₀ root (do
      let attributes ← buttonAttributes v n
      return [.element "button" attributes (← x)]) := by
  unfold buttonAttributes
  dsimp only
  split
  · exact hx.element "button" (pointersOf_button n)
  · intro d
    let handler : Handler :=
      { kind := .click, actions := bindingActions n, locals := v.locals.flatten }
    obtain ⟨hs, hhandlers, hpairs⟩ := hx { d with handlers := d.handlers ++ [handler] }
    refine ⟨handler :: hs, hhandlers.trans (List.append_assoc _ _ _), ?_⟩
    · rw [List.length_append] at hpairs
      show List.Forall₂ _ (pointing [.element "button" (("type", "button") :: passed n "class"
          ++ [("data-tessera-on", toString d.handlers.length)]) _]) (_ :: pointedAt hs _)
      rw [pointing_element, pointersOf_pointingButton, if_neg (List.cons_ne_nil _ _)]
      refine .cons ⟨v, n, hv, ?_, ?_⟩ hpairs
      · rw [Makes, hn]
      · rw [Points, hn]

/-- A field points at its handler, with a label around it or without one. -/
theorem wires_field (hv : Visits v₀ root v n) (checkbox : Bool)
    (hn : n.dsl? = some (if checkbox then .checkbox else .textInput)) :
    Wires v₀ root (field v n checkbox) := by
  unfold field
  split
  · exact .pure rfl
  · rename_i var hvar
    intro d
    let handler : Handler :=
      { kind := .change, actions := bindingActions n, input := some ⟨var, checkbox⟩
        locals := v.locals.flatten }
    let attributes := fieldAttributes n checkbox ((v.scope.lookup var).getD .undefined)
      ++ passed n "class" ++ [("data-tessera-input", toString d.handlers.length)]
    have hinput : pointing [.element "input" attributes []] = [("input", attributes)] := by
      rw [pointing_element, pointersOf_pointingField, if_neg (List.cons_ne_nil _ _)]
      rfl
    have hlabel (label : String) :
        pointing [.element "label" [] [.element "input" attributes [], .text label]] =
          [("input", attributes)] := by
      rw [pointing_element, if_pos (show pointersOf [] = [] from rfl), ← hinput]
      rfl
    have hwire : Wire v₀ root ("input", attributes) (handler, d.handlers.length) := by
      refine ⟨v, n, hv, ?_, ?_⟩
      · rw [Makes, hn]
        cases checkbox with
        | true => exact ⟨var, true, hvar, rfl⟩
        | false => exact ⟨var, false, hvar, rfl⟩
      · rw [Points, Template.Node.isDsl, hn]
        cases checkbox with
        | true => exact ⟨var, hvar, rfl⟩
        | false => exact ⟨var, hvar, rfl⟩
    have hpairs : List.Forall₂ (Wire v₀ root) [("input", attributes)]
        (pointedAt [handler] d.handlers.length) := .cons hwire .nil
    refine ⟨[handler], rfl, ?_⟩
    cases hlabelled : n.attr? "label" with
    | some label =>
      show List.Forall₂ _ (pointing
        [.element "label" [] [.element "input" attributes [], .text (" " ++ label)]]) _
      rwa [hlabel]
    | none =>
      show List.Forall₂ _ (pointing [.element "input" attributes []]) _
      rwa [hinput]

end Parts

/-! ## Inside of islands -/

/-- A node as a compilation makes it, as far as it counts for pointers. -/
structure Wirable (n : Template.Node) : Prop where
  plain : ∀ name, n.tag = .html name → pointersOf n.attributes = []
  handles : n.bindings ≠ [] → n.tag.handlesEvents = true
  settled : n.Settled

/-- What a node draws in an island, if it is known of what is drawn below it. -/
theorem wires_body (r : Renderer) {v : View} {n : Template.Node} (hv : Visits v₀ root v n)
    (hn : Wirable n) (hnodes : n.isDsl .forEach = false → Wires v₀ root (nodes r true v n.children))
    (hround : n.isDsl .forEach = true → ∀ item index,
      Wires v₀ root (nodes r true (v.bindItem n item index) n.children))
    (hbranch : n.isDsl .ifChain = true → Wires v₀ root (firstBranch r true v n.children))
    (hwhere : n.isDsl .switch = true → ∀ value,
      Wires v₀ root (firstWhere r true v (chosen value n.children) n.children)) :
    Wires v₀ root (body r true v n) := by
  obtain ⟨tag, attributes, children, span, bindings, island⟩ := n
  cases tag with
  | fragment => exact hnodes rfl
  | text content => exact .pure rfl
  | html name => exact (hnodes rfl).element name (hn.plain name rfl)
  | dsl t =>
    cases t with
    | showVar => exact wires_showVar
    | ifChain => exact hbranch rfl
    | switch => exact .bind (hands_switchValue v) fun value => hwhere rfl value
    | forEach =>
      simp only [body, rounds_mapM]
      exact .bind (hands_roundItems r v) fun items => .flatten (fun x => hround rfl x.1 x.2) items
    | button => exact wires_button hv rfl (hnodes rfl)
    | textInput => exact wires_field hv false rfl
    | checkbox => exact wires_field hv true rfl
    | event e =>
      cases e with
      | onMount => exact .lifecycle v (hn.settled.events (.inl rfl))
      | onInterval => exact .lifecycle v (hn.settled.events (.inr rfl))
      | onClick | onChange => exact .pure rfl
    | resident t =>
      refine .pure ?_
      unfold residentNode
      split
      · rfl
      · rfl
    | _ => exact .pure rfl

section

variable (r : Renderer)

mutual

/-- An island is drawn with its elements and handlers in step. -/
theorem wires_node (hroot : ∀ n ∈ root.walk, Wirable n) {v : View} : (n : Template.Node) →
    Visits v₀ root v n → Wires v₀ root (node r true v n)
  | ⟨tag, attributes, children, span, bindings, island⟩, hv => by
    rw [node_eq, enclose_inside]
    refine wires_body r hv (hroot _ hv.mem_walk) ?_ ?_ ?_ ?_
    · exact fun hloop => wires_nodes hroot children fun c hc => hv.child hloop hc
    · exact fun hloop item index => wires_nodes hroot children fun c hc =>
        .round item index hv hloop hc
    · exact fun hchain => wires_firstBranch hroot children fun c hc g hg => hv.branch hchain hc hg
    · intro hswitch value
      have hloop := Template.Node.isDsl_of_ne hswitch (show DslTag.switch ≠ .forEach by decide)
      exact wires_firstWhere hroot _ children fun c hc hp g hg =>
        (hv.child hloop hc).child (not_forEach_of_chosen hp) hg

/-- What nodes draw points at the handlers that they add, in order. -/
theorem wires_nodes (hroot : ∀ n ∈ root.walk, Wirable n) {v : View} : (ns : List Template.Node) →
    (∀ n ∈ ns, Visits v₀ root v n) → Wires v₀ root (nodes r true v ns)
  | [], _ => .pure rfl
  | n :: ns, h => (wires_node hroot n (h n List.mem_cons_self)).append
      (wires_nodes hroot ns fun n hn => h n (List.mem_cons_of_mem _ hn))

theorem wires_firstBranch (hroot : ∀ n ∈ root.walk, Wirable n) {v : View} :
    (ns : List Template.Node) → (∀ c ∈ ns, ∀ g ∈ c.children, Visits v₀ root v g) →
    Wires v₀ root (firstBranch r true v ns)
  | [], _ => .pure rfl
  | ⟨tag, attributes, children, span, bindings, island⟩ :: ns, h => by
    have hnext : ∀ taken : Bool, Wires v₀ root
        (if taken then nodes r true v children else firstBranch r true v ns) := by
      intro taken
      cases taken with
      | true => exact wires_nodes hroot children (h _ List.mem_cons_self)
      | false => exact wires_firstBranch hroot ns fun c hc => h c (List.mem_cons_of_mem _ hc)
    rw [firstBranch_cons]
    split
    · exact .bind (.pure true) hnext
    · exact .bind (hands_condition v) hnext

theorem wires_firstWhere (hroot : ∀ n ∈ root.walk, Wirable n) {v : View}
    (p : Template.Node → Bool) : (ns : List Template.Node) →
    (∀ c ∈ ns, p c = true → ∀ g ∈ c.children, Visits v₀ root v g) →
    Wires v₀ root (firstWhere r true v p ns)
  | [], _ => .pure rfl
  | ⟨tag, attributes, children, span, bindings, island⟩ :: ns, h => by
    rw [firstWhere_cons]
    split
    · rename_i hp
      exact wires_nodes hroot children (h _ List.mem_cons_self hp)
    · exact wires_firstWhere hroot p ns fun c hc => h c (List.mem_cons_of_mem _ hc)

end

end

end

/-! ## Outside of islands -/

/-- To draw this adds no element that points, but in islands. -/
def Silent (x : Draw (List Node)) : Prop := ∀ d, pointing (Node.erasedAll (x.run d).1) = []

namespace Silent

variable {α : Type} {x y : Draw (List Node)}

theorem pure {ns : List Node} (h : pointing (Node.erasedAll ns) = []) : Silent (Pure.pure ns) :=
  fun _ => h

theorem bind {x : Draw α} {f : α → Draw (List Node)} (h : ∀ a, Silent (f a)) : Silent (x >>= f) :=
  fun d => h (x.run d).1 (x.run d).2

/-- Nothing points in either piece. -/
theorem append (hx : Silent x) (hy : Silent y) : Silent (do return (← x) ++ (← y)) := by
  intro d
  show pointing (Node.erasedAll ((x.run d).1 ++ (y.run (x.run d).2).1)) = []
  rw [Node.erasedAll_append, pointing_append, hx d, hy, List.append_nil]

theorem element (hx : Silent x) (tag : String) {attributes : Dict String}
    (h : pointersOf attributes = []) : Silent (do return [.element tag attributes (← x)]) := by
  intro d
  show pointing [.element tag attributes (Node.erasedAll (x.run d).1)] = []
  rw [pointing_element, if_pos h, hx d]

theorem flatten {f : α → Draw (List Node)} (h : ∀ a, Silent (f a)) (xs : List α) :
    Silent (do return (← xs.mapM f).flatten) := by
  induction xs with
  | nil => exact .pure rfl
  | cons x xs ih =>
    intro d
    rw [List.mapM_cons]
    exact (h x).append ih d

/-- The place of an island does not point, whatever the island holds. -/
theorem enclose {island : Option String} (h : island = none → Silent x) (component : String) :
    Silent (enclose island false component x) := by
  cases island with
  | none => exact h rfl
  | some id => exact fun _ => rfl

end Silent

section

variable {v : View} {n : Template.Node}

/-- What a node draws that neither does something nor is a field, if it is known of what is drawn
below it. -/
theorem silent_body (r : Renderer)
    (hplain : ∀ name, n.tag = .html name → pointersOf n.attributes = [])
    (hidle : n.bindings = []) (hinput : n.inputVar? = none)
    (hnodes : ∀ v, Silent (nodes r false v n.children))
    (hbranch : n.isDsl .ifChain = true → Silent (firstBranch r false v n.children))
    (hwhere : ∀ value, Silent (firstWhere r false v (chosen value n.children) n.children)) :
    Silent (body r false v n) := by
  obtain ⟨tag, attributes, children, span, bindings, island⟩ := n
  obtain rfl : bindings = [] := hidle
  have hfield (checkbox : Bool)
      (hvar : Template.Node.attr? ⟨tag, attributes, children, span, [], island⟩ "var" = none) :
      Silent (field v ⟨tag, attributes, children, span, [], island⟩ checkbox) := by
    rw [field, hvar]
    exact .pure rfl
  cases tag with
  | fragment => exact hnodes v
  | text content => exact .pure rfl
  | html name => exact (hnodes v).element name (hplain name rfl)
  | dsl t =>
    cases t with
    | showVar =>
      simp only [body]
      unfold showVar
      split
      · exact .pure rfl
      · dsimp only
        split
        · exact .pure rfl
        · exact .bind fun _ => .pure rfl
    | ifChain => exact hbranch rfl
    | switch => exact .bind hwhere
    | forEach => exact .bind fun views => .flatten hnodes views
    | button => exact (hnodes v).element "button" (pointersOf_button _)
    | textInput => exact hfield false hinput
    | checkbox => exact hfield true hinput
    | event e =>
      cases e with
      | onMount | onInterval | onClick | onChange => exact .pure rfl
    | resident t =>
      refine .pure ?_
      unfold residentNode
      split
      · rfl
      · rfl
    | _ => exact .pure rfl

variable (r : Renderer) (s : Island.Survey)

mutual

/-- In a marked tree all that points is in islands. -/
theorem silent_mark (found : List Island) {v : View} : (n : Template.Node) →
    (∀ m ∈ n.walk, Wirable m) → Silent (node r false v (s.mark found n).1)
  | ⟨tag, attributes, children, span, bindings, island⟩, h => by
    obtain ⟨hn, hchildren⟩ := Template.Node.forall_walk.1 h
    rw [node_eq, Island.Survey.mark_eq]
    refine .enclose (fun hisland => ?_) _
    split at hisland
    · cases hisland
    · rename_i hinteractive
      obtain rfl : island = none := hisland
      have hinert := Bool.eq_false_iff.2 hinteractive
      rw [if_neg hinteractive]
      refine silent_body r hn.plain ?_ ?_ (fun v => silent_markAll found children hchildren) ?_ ?_
      · exact Classical.not_not.1 fun hne => Island.not_active_of_not_interactive hinert (.acts hne)
      · have hinput := Island.inputVar?_of_not_interactive hinert
        exact hinput
      · refine fun hchain => silent_firstBranch found children hchildren fun c hc => ?_
        exact (hn.settled.seats c hc).trans hchain
      · exact fun value => silent_firstWhere _ (fun _ hc => isPart_of_chosen hc) found children
          hchildren

/-- Outside of islands nothing points: whatever would is marked as one. -/
theorem silent_markAll (found : List Island) {v : View} : (ns : List Template.Node) →
    (∀ m ∈ Template.Node.walkAll ns, Wirable m) → Silent (nodes r false v (s.markAll found ns).1)
  | [], _ => .pure rfl
  | n :: ns, h => by
    obtain ⟨hn, hchildren, hns⟩ := Template.Node.forall_walkAll_cons.1 h
    exact (silent_mark found n (Template.Node.forall_walk.2 ⟨hn, hchildren⟩)).append
      (silent_markAll _ ns hns)

theorem silent_firstBranch (found : List Island) {v : View} : (ns : List Template.Node) →
    (∀ m ∈ Template.Node.walkAll ns, Wirable m) → (∀ c ∈ ns, c.isBranch = true) →
    Silent (firstBranch r false v (s.markAll found ns).1)
  | [], _, _ => .pure rfl
  | ⟨tag, attributes, children, span, bindings, island⟩ :: ns, h, hb => by
    obtain ⟨hbranch, hrest⟩ := List.forall_mem_cons.1 hb
    obtain ⟨hn, hchildren, hns⟩ := Template.Node.forall_walkAll_cons.1 h
    have hinert := not_interactive_of_part s.reactive hn.handles (.inl hbranch)
    have hnext (found : List Island) : ∀ taken : Bool, Silent (if taken then
        nodes r false v (s.markAll found children).1
        else firstBranch r false v (s.markAll (s.markAll found children).2 ns).1) := by
      intro taken
      cases taken with
      | true => exact silent_markAll found children hchildren
      | false => exact silent_firstBranch _ ns hns hrest
    unfold Island.Survey.markAll
    rw [Island.Survey.mark_eq, hinert, if_neg Bool.false_ne_true]
    dsimp only
    rw [firstBranch_cons]
    split
    · exact .bind (hnext found)
    · exact .bind (hnext found)

theorem silent_firstWhere (p : Template.Node → Bool)
    (hp : ∀ c, p c = true → c.isDsl .caseBranch = true ∨ c.isDsl .defaultBranch = true)
    (found : List Island) {v : View} : (ns : List Template.Node) →
    (∀ m ∈ Template.Node.walkAll ns, Wirable m) →
    Silent (firstWhere r false v p (s.markAll found ns).1)
  | [], _ => .pure rfl
  | ⟨tag, attributes, children, span, bindings, island⟩ :: ns, h => by
    obtain ⟨hn, hchildren, hns⟩ := Template.Node.forall_walkAll_cons.1 h
    have hmark := s.marked_mark found ⟨tag, attributes, children, span, bindings, island⟩
    unfold Island.Survey.markAll
    dsimp only
    rw [firstWhere_cons]
    split
    · rename_i hchosen
      have hpart := hp _ hchosen
      rw [hmark.isDsl, hmark.isDsl] at hpart
      rw [Island.Survey.mark_eq, not_interactive_of_part s.reactive hn.handles (.inr hpart),
        if_neg Bool.false_ne_true]
      exact silent_markAll found children hchildren
    · exact silent_firstWhere p hp _ ns hns

end

end

/-! ## Compiled templates -/

/-- The handler at a place is that of a button, which is drawn as the element. -/
structure ForButton (v₀ : View) (root : Template.Node) (e : String × Dict String) (place : Nat)
    (h : Handler) : Prop where
  kind : h.kind = .click
  input : h.input = none
  drawn : Wire v₀ root e (h, place)

/-- The handler at a place is that of a field, which is drawn as the element, and writes the
variable of the field. -/
structure ForField (v₀ : View) (root : Template.Node) (e : String × Dict String) (place : Nat)
    (h : Handler) : Prop where
  kind : h.kind = .change
  drawn : ∃ v n, Visits v₀ root v n ∧ Makes v n h ∧ Points v n place e ∧
    ∃ var checkbox, n.inputVar? = some var ∧ h.input = some ⟨var, checkbox⟩

/-- What is drawn of an island, and the handlers that its elements point at. -/
structure Wired (v₀ : View) (root : Template.Node) (shown : List Node) (handlers : List Handler) :
    Prop where
  clicks : ∀ e ∈ Node.elementsAll shown, ∀ value, ("data-tessera-on", value) ∈ e.2 →
    ∃ (place : Nat) (h : Handler), value = toString place ∧ handlers[place]? = some h ∧
      ForButton v₀ root e place h
  changes : ∀ e ∈ Node.elementsAll shown, ∀ value, ("data-tessera-input", value) ∈ e.2 →
    ∃ (place : Nat) (h : Handler), value = toString place ∧ handlers[place]? = some h ∧
      ForField v₀ root e place h
  distinct : ((pointers shown).map (·.2)).Nodup
  pointed : ∀ (place : Nat) (h : Handler), handlers[place]? = some h →
    h.kind = .click ∨ h.kind = .change → ((pointers shown).map (·.2)).count (toString place) = 1

section

variable {v₀ : View} {root : Template.Node} {shown : List Node} {handlers : List Handler}

/-- A button points with one attribute, a field with the other one. -/
theorem Wire.pointersOf_eq {e : String × Dict String} {h : Handler} {place : Nat}
    (hw : Wire v₀ root e (h, place)) :
    pointersOf e.2 = [("data-tessera-on", toString place)] ∧ ForButton v₀ root e place h ∨
      pointersOf e.2 = [("data-tessera-input", toString place)] ∧ ForField v₀ root e place h := by
  obtain ⟨v, n, hv, hmakes, hpoints⟩ := hw
  have hm := hmakes
  have hp := hpoints
  unfold Makes at hm
  unfold Points at hp
  cases hn : n.dsl? with
  | none =>
    rw [hn] at hp
    exact hp.elim
  | some t =>
    rw [hn] at hm hp
    cases t with
    | button =>
      obtain rfl : h = _ := hm
      obtain rfl : e = _ := hp
      exact .inl ⟨pointersOf_pointingButton n _, rfl, rfl, v, n, hv, hmakes, hpoints⟩
    | textInput | checkbox =>
      obtain ⟨var, checkbox, hvar, rfl⟩ : ∃ var checkbox, n.attr? "var" = some var ∧ h = _ := hm
      obtain ⟨_, -, rfl⟩ := hp
      have hinput : n.inputVar? = some var := by
        rw [Template.Node.inputVar?, hn]
        exact hvar
      exact .inr ⟨pointersOf_pointingField n _ _ _, rfl, v, n, hv, hmakes, hpoints, var, checkbox,
        hinput, rfl⟩
    | _ => exact hp.elim

/-- The handlers that are pointed at are those of clicks and changes, each by its place. -/
theorem mem_pointedAt {h : Handler} {place : Nat} :
    (h, place) ∈ pointedAt handlers 0 ↔
      handlers[place]? = some h ∧ (h.kind = .click ∨ h.kind = .change) := by
  rw [pointedAt, List.mem_filter, List.mk_mem_zipIdx_iff_getElem?, Handler.isPointedAt,
    Bool.or_eq_true, decide_eq_true_iff, decide_eq_true_iff]

/-- No two places are written the same. -/
theorem toString_place_inj {place place' : Nat} (h : toString place = toString place') :
    place = place' := by
  have hdigits : Nat.toDigits 10 place = Nat.toDigits 10 place' := by
    have hchars := congrArg String.toList h
    rwa [Nat.toString_eq_ofList_toDigits, Nat.toString_eq_ofList_toDigits, String.toList_ofList,
      String.toList_ofList] at hchars
  calc
    place = Nat.ofDigitChars 10 (Nat.toDigits 10 place) 0 := Nat.ofDigitChars_ten_toDigits.symm
    _ = Nat.ofDigitChars 10 (Nat.toDigits 10 place') 0 := by rw [hdigits]
    _ = place' := Nat.ofDigitChars_ten_toDigits

/-- No place is pointed at twice. -/
theorem nodup_pointedAt : ((pointedAt handlers 0).map fun x => toString x.2).Nodup := by
  have hplaces : ((pointedAt handlers 0).map (·.2)).Nodup := by
    refine List.Nodup.sublist (List.filter_sublist.map _) ?_
    rw [List.zipIdx_map_snd]
    exact List.nodup_range'
  have hnames := hplaces.map fun _ _ => toString_place_inj
  rwa [List.map_map] at hnames

/-- What elements in step point at, in the order of the page. -/
theorem map_pointersOf {es : List (String × Dict String)} {xs : List (Handler × Nat)}
    (h : List.Forall₂ (Wire v₀ root) es xs) :
    (es.flatMap fun e => pointersOf e.2).map (·.2) = xs.map fun x => toString x.2 := by
  induction h with
  | nil => rfl
  | cons hwire _ ih =>
    rw [List.flatMap_cons, List.map_append, ih, List.map_cons]
    rcases hwire.pointersOf_eq with ⟨heq, -⟩ | ⟨heq, -⟩
    all_goals
      rw [heq]
      rfl

/-- Elements and handlers in step point at one another. -/
theorem Wired.of_forall₂ (h : List.Forall₂ (Wire v₀ root) (pointing shown) (pointedAt handlers 0)) :
    Wired v₀ root shown handlers := by
  have hpaired : ∀ e ∈ Node.elementsAll shown, ∀ a ∈ e.2, a.1 ∈ pointerAttrs →
      ∃ place h, handlers[place]? = some h ∧ Wire v₀ root e (h, place) ∧ a ∈ pointersOf e.2 := by
    intro e he a ha hname
    have hpointer := mem_pointersOf.2 ⟨ha, hname⟩
    have hpointing : e ∈ pointing shown :=
      List.mem_filter.2 ⟨he, decide_eq_true (List.ne_nil_of_mem hpointer)⟩
    obtain ⟨⟨h, place⟩, hx, hwire⟩ := exists_of_forall₂ h e hpointing
    exact ⟨place, h, (mem_pointedAt.1 hx).1, hwire, hpointer⟩
  have hplaces : (pointers shown).map (·.2) =
      (pointedAt handlers 0).map fun x => toString x.2 := by
    rw [pointers_eq, map_pointersOf h]
  have hdistinct : ((pointers shown).map (·.2)).Nodup := hplaces ▸ nodup_pointedAt
  refine ⟨?_, ?_, hdistinct, ?_⟩
  · intro e he value ha
    obtain ⟨place, h, hplace, hwire, hpointer⟩ := hpaired e he _ ha (.head _)
    rcases hwire.pointersOf_eq with ⟨heq, hbutton⟩ | ⟨heq, -⟩
    · rw [heq, List.mem_singleton] at hpointer
      exact ⟨place, h, (Prod.mk.inj hpointer).2, hplace, hbutton⟩
    · rw [heq, List.mem_singleton] at hpointer
      exact absurd (Prod.mk.inj hpointer).1 (by decide)
  · intro e he value ha
    obtain ⟨place, h, hplace, hwire, hpointer⟩ := hpaired e he _ ha (.tail _ (.head _))
    rcases hwire.pointersOf_eq with ⟨heq, -⟩ | ⟨heq, hfield⟩
    · rw [heq, List.mem_singleton] at hpointer
      exact absurd (Prod.mk.inj hpointer).1 (by decide)
    · rw [heq, List.mem_singleton] at hpointer
      exact ⟨place, h, (Prod.mk.inj hpointer).2, hplace, hfield⟩
  · intro place h hplace hkind
    refine List.count_eq_one_of_mem hdistinct ?_
    rw [hplaces]
    have hx : (h, place) ∈ pointedAt handlers 0 := mem_pointedAt.2 ⟨hplace, hkind⟩
    exact List.mem_map.2 ⟨(h, place), hx, rfl⟩

end

/-- The tags of HTML that compiling lets through have no pointers of their own. -/
theorem wirable_of_makes {c : Config} {src : String} {nodes : List Template.Node}
    (h : Compile.Makes c src nodes) : ∀ n ∈ (Template.Node.fragment nodes).walk, Wirable n := by
  obtain ⟨places, hformed, -⟩ := h.formed
  have hsiblings := h.siblings
  refine Template.Node.forall_walk.2 ⟨⟨nofun, fun hb => absurd rfl hb, ?_⟩, fun n hn => ?_⟩
  · exact ⟨hsiblings.branch, fun h => h.elim nofun nofun⟩
  · have hnode := hformed.nodes n hn
    exact ⟨fun name htag => pointersOf_of_safe (hnode.safe name htag), hnode.handles,
      hsiblings.settled n hn⟩

/-- Whatever a template is compiled from and whatever there is to show, be there errors or not: what
is drawn of an island points at its handlers, each pointer at the handler of its control, and at
each handler of a click or a change once. On a page nothing points outside of islands. -/
theorem wired_of_compile (c : Config) (src : String) (r : Renderer) (scope : Scope) :
    (∀ i ∈ (compile c src).islands, Wired (start r scope) i.node
      (r.renderIsland scope i).children (r.renderIsland scope i).handlers) ∧
    ∀ e ∈ (r.render scope (compile c src).root).root.erased.elements, ∀ a ∈ e.2,
      a.1 ≠ "data-tessera-on" ∧ a.1 ≠ "data-tessera-input" := by
  obtain ⟨nodes, hmakes, hextract⟩ := Compile.exists_makes c src
  have hwirable := wirable_of_makes hmakes
  let root := Template.Node.fragment nodes
  let s : Island.Survey :=
    ⟨(compile c src).id, Template.reactive root (compile c src).decls⟩
  rw [show (compile c src).islands = (s.mark [] root).2 from congrArg Prod.snd hextract,
    show (compile c src).root = (s.mark [] root).1 from congrArg Prod.fst hextract]
  refine ⟨fun i hi => ?_, fun e he a ha => ?_⟩
  · obtain ⟨n, hn, -, used, rfl⟩ :=
      s.from_of_mem_mark (List.forall_mem_nil _) root (List.Subset.refl _) i hi
    obtain ⟨⟨hplain, hhandles, hseats, hevents⟩, hbelow⟩ :=
      Template.Node.forall_walk.1 fun m hm => hwirable m (Template.Node.walk_subset _ _ hn hm)
    have hisland : ∀ m ∈ (s.islandOf used n).node.walk, Wirable m :=
      Template.Node.forall_walk.2 ⟨⟨hplain, hhandles, hseats, hevents⟩, hbelow⟩
    obtain ⟨hs, hhandlers, hpairs⟩ :=
      wires_node r hisland _ (.root : Visits (start r scope) (s.islandOf used n).node _ _) {}
    have hall : (r.renderIsland scope (s.islandOf used n)).handlers = hs := hhandlers
    refine .of_forall₂ ?_
    rw [hall]
    exact hpairs
  · have hsilent : (Node.elementsAll (Node.erasedAll _)).filter _ = [] :=
      silent_mark r s (v := start r scope) [] root hwirable {}
    have hnone : pointersOf e.2 = [] := by
      have hpointing := List.filter_eq_nil_iff.1 hsilent e he
      simpa using hpointing
    have hname := pointersOf_eq_nil.1 hnone a ha
    rwa [pointerAttrs, List.mem_pair, not_or] at hname

/-- Something to do on a mount, and a button with a field in it. -/
def deskMarkup : String :=
  "<Var name=\"on\" type=\"boolean\"/><If not=\"on\"><OnMount><Toggle var=\"on\"/></OnMount>"
    ++ "<Button><OnClick><Toggle var=\"on\"/></OnClick><Checkbox var=\"on\"/></Button></If>"

/-- Nothing is on. -/
abbrev deskScope : Scope := ⟨fun _ => some (.bool false), .undefined⟩

/-- One island with three handlers. Two of them are pointed at, by the button and by its field, and
nothing points at the mount. -/
theorem wired_desk :
    (compile {} deskMarkup).islands.map (fun i =>
      ((((Renderer.ofConfig {}).renderIsland deskScope i).handlers.map (·.kind)),
        pointers ((Renderer.ofConfig {}).renderIsland deskScope i).children)) =
      [([.mount, .click, .change], [("data-tessera-on", "1"), ("data-tessera-input", "2")])] ∧
    ∀ i ∈ (compile {} deskMarkup).islands, Wired (start (Renderer.ofConfig {}) deskScope) i.node
      ((Renderer.ofConfig {}).renderIsland deskScope i).children
      ((Renderer.ofConfig {}).renderIsland deskScope i).handlers :=
  ⟨by decide +kernel, (wired_of_compile {} deskMarkup (Renderer.ofConfig {}) deskScope).1⟩

end Page

end Archipelago
