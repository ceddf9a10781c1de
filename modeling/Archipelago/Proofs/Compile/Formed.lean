import Archipelago.Proofs.Compile.Tree
import Archipelago.Proofs.Markup.Places
import Archipelago.Proofs.Template.Walk
import Archipelago.Proofs.Value.Plain
import Mathlib.Algebra.Group.Nat.Defs

/-!
# Trees that a compilation makes

Be there errors or not, a compilation makes nodes of one shape only: none is marked, no attribute is
there twice, an element is one of HTML with safe attributes, and only controls and the tags of
events do something. The tree is no wider than the markup that it is made from.
-/

namespace Archipelago

open Template (Node)

/-! ## Actions -/

/-- Values are ones that the text of a template can hold. -/
def Operand.Formed : Operand → Prop
  | .value v => v.Plain
  | .expr _ => True

namespace Action

mutual

/-- Literal values have no missing data, and delays are counted in 64 bits. -/
def Formed : Action → Prop
  | set _ v | increment _ v | decrement _ v | push _ v | removeAt _ v | objectSet _ _ v => v.Formed
  | cycle _ values => ∀ v ∈ values, v.Plain
  | sequence steps => FormedAll steps
  | delay ms => ms < 2 ^ 64
  | toggle _ | reset _ | pop _ | merge .. | clone .. | filter .. | sort .. | transform .. | find ..
  | sum .. => True

def FormedAll : List Action → Prop
  | [] => True
  | a :: as => Formed a ∧ FormedAll as

end

theorem formedAll_iff {as : List Action} : FormedAll as ↔ ∀ a ∈ as, a.Formed := by
  induction as with
  | nil => simp [FormedAll]
  | cons a as ih => simp [FormedAll, ih]

end Action

/-- The interval of a binding has room in 64 bits. -/
structure EventBinding.Formed (b : EventBinding) : Prop where
  interval : ∀ ms, b.intervalMs = some ms → ms < 2 ^ 64
  actions : Action.FormedAll b.actions

/-! ## Nodes -/

namespace Template

/-- Tags whose nodes can do something. -/
def NodeTag.handlesEvents : NodeTag → Bool
  | .dsl .button | .dsl .textInput | .dsl .checkbox | .dsl (.event .onMount)
  | .dsl (.event .onInterval) => true
  | _ => false

namespace Node

mutual

/-- How many nodes without children there are. -/
def width : Node → Nat
  | ⟨_, _, children, _, _, _⟩ => max 1 (widthAll children)

/-- How many nodes without children there are in a list. -/
def widthAll : List Node → Nat
  | [] => 0
  | n :: ns => width n + widthAll ns

end

/-- A node without children counts for itself. -/
theorem width_eq (n : Node) : n.width = max 1 (widthAll n.children) := by
  obtain ⟨tag, attributes, children, span, bindings, island⟩ := n
  rfl

@[simp] theorem widthAll_append (ns ms : List Node) :
    widthAll (ns ++ ms) = widthAll ns + widthAll ms := by
  induction ns with
  | nil => simp [widthAll]
  | cons n ns ih => simp [widthAll, ih, Nat.add_assoc]

/-- A node as a compilation makes it, at a place that is one of these. -/
structure Formed (places : List Span) (n : Node) : Prop where
  unmarked : n.island = none
  attributes : (Dict.keys n.attributes).Nodup
  known : ∀ name, n.tag = .html name → isHtmlTag name = true
  safe : ∀ name, n.tag = .html name → ∀ a ∈ n.attributes, unsafeReason? a.1 a.2 = none
  handles : n.bindings ≠ [] → n.tag.handlesEvents = true
  bindings : ∀ b ∈ n.bindings, b.Formed
  place : n.span ∈ places

/-- All nodes of these trees are formed, and there are places for the width of them. -/
structure FormedAll (places : List Span) (ns : List Node) : Prop where
  nodes : ∀ n ∈ walkAll ns, n.Formed places
  width : widthAll ns ≤ places.length

namespace FormedAll

variable {places more : List Span} {ns ms : List Node} {n : Node}

theorem nil : FormedAll places [] := ⟨List.forall_mem_nil _, Nat.zero_le _⟩

theorem append (hn : FormedAll places ns) (hm : FormedAll more ms) :
    FormedAll (places ++ more) (ns ++ ms) where
  nodes n h := by
    rw [walkAll_append] at h
    rcases List.mem_append.1 h with h | h
    · exact { hn.nodes n h with place := List.mem_append_left _ (hn.nodes n h).place }
    · exact { hm.nodes n h with place := List.mem_append_right _ (hm.nodes n h).place }
  width := by
    rw [widthAll_append, List.length_append]
    exact Nat.add_le_add hn.width hm.width

theorem mono (h : FormedAll places ns) (hsub : places ⊆ more) (hle : places.length ≤ more.length) :
    FormedAll more ns where
  nodes n hn := { h.nodes n hn with place := hsub (h.nodes n hn).place }
  width := h.width.trans hle

/-- Places in front of the others take nothing away. -/
theorem prepend (h : FormedAll more ns) (places : List Span) : FormedAll (places ++ more) ns :=
  .append .nil h

theorem right (h : FormedAll places (ns ++ ms)) : FormedAll places ms where
  nodes n hn := h.nodes n (by rw [walkAll_append]; exact List.mem_append_right _ hn)
  width := (Nat.le_add_left _ _).trans (widthAll_append ns ms ▸ h.width)

/-- One node above others needs no place of its own, if there is one at all. -/
theorem node (hn : n.Formed places) (hc : FormedAll places n.children) : FormedAll places [n] where
  nodes m hm := by
    rw [walkAll_singleton] at hm
    exact forall_walk.2 ⟨hn, hc.nodes⟩ m hm
  width := by
    rw [widthAll, widthAll, Nat.add_zero, width_eq]
    exact Nat.max_le.2 ⟨List.length_pos_of_mem hn.place, hc.width⟩

end FormedAll

end Node

end Template

namespace Compile

open Markup (OpenTag RawNode)
open Markup.RawNode (spans spansAll)

variable {r : Rules}

/-! ## Steps of events -/

section Steps

variable (tag : OpenTag) (names : List String)

/-- A whole number that is read has room in 64 bits. -/
theorem lt_of_wholeNumber? {s : String} {n : Nat} (h : wholeNumber? s = some n) : n < 2 ^ 64 :=
  of_decide_eq_true (Option.filter_eq_some_iff.1 h).2

/-- An operand that is made is formed, be it an expression or a literal. -/
theorem gives_valueOperand : Gives r (valueOperand tag names) Operand.Formed := by
  unfold valueOperand
  split
  · exact .bind fun _ => .pure True.intro
  · exact .bind fun text => .pure (Value.plain_ofLiteral text)

theorem yields_numberOperand (text : String) :
    Yields r (numberOperand tag names text) Operand.Formed := by
  unfold numberOperand
  split
  · exact .pure (.number _)
  · exact .bind fun _ => .pure True.intro

theorem yields_amount : Yields r (varStep.amount tag names) Operand.Formed := by
  unfold varStep.amount
  split
  · exact yields_numberOperand tag names _
  · exact .pure (.number _)

theorem gives_delayStep (inSequence : Bool) : Gives r (delayStep tag inSequence) Action.Formed := by
  unfold delayStep
  split
  · exact .reject _ _ _
  · refine .bind fun raw => ?_
    split
    · rename_i ms hms
      exact .pure (lt_of_wholeNumber? hms)
    · exact .reject _ _ _

/-- An action on a variable is formed. -/
theorem gives_varStep (a : ActionTag) : Gives r (varStep tag a names) Action.Formed := by
  unfold varStep
  refine .bind fun var => ?_
  cases a with
  | set | push => exact .bind fun _ => (gives_valueOperand tag names).seq fun v hv => .pure hv
  | increment | decrement =>
    exact .bind fun _ => (Gives.lift (yields_amount tag names)).seq fun v hv => .pure hv
  | toggle | reset | pop => exact .bind fun _ => .pure True.intro
  | cycle =>
    refine .bind fun _ => .bind fun values => .pure ?_
    rw [Action.Formed]
    intro v hv
    obtain ⟨text, -, rfl⟩ := List.mem_map.1 hv
    exact Value.plain_ofLiteral _
  | removeAt =>
    exact .bind fun _ => .bind fun index =>
      (Gives.lift (yields_numberOperand tag names index)).seq fun v hv => .pure hv
  | objectSet =>
    exact .bind fun _ => .bind fun path => (gives_valueOperand tag names).seq fun v hv => .pure hv
  | clone => exact .bind fun _ => .bind fun _ => .pure True.intro
  | filter | find | transform =>
    exact .bind fun _ => .bind fun _ => .bind fun _ => .bind fun _ => .pure True.intro
  | sort => exact .bind fun _ => .bind fun _ => .bind fun _ => .bind fun _ => .pure True.intro
  | sum => exact .bind fun _ => .bind fun _ => .bind fun _ => .pure True.intro
  | merge | sequence | delay => exact .bind fun _ => .failure

mutual

/-- All actions that are made are formed, at any depth. -/
theorem yields_steps (inSequence : Bool) (depth : Nat) : (ns : List RawNode) →
    Yields r (steps names inSequence depth ns) Action.FormedAll
  | [] => .pure True.intro
  | n :: rest => by
    unfold steps
    refine Yields.seq (gives_step inSequence depth n).run fun a ha => ?_
    refine (yields_steps inSequence depth rest).seq fun more hmore => .pure ?_
    rw [Action.formedAll_iff] at hmore ⊢
    intro b hb
    rcases List.mem_append.1 hb with hb | hb
    · exact ha b (Option.mem_toList.1 hb)
    · exact hmore b hb

/-- A step that is kept is formed. -/
theorem gives_step (inSequence : Bool) (depth : Nat) : (n : RawNode) →
    Gives r (step names inSequence depth n) Action.Formed
  | .text content span => by
    unfold step
    split
    · exact .failure
    · exact .reject _ _ _
  | .element tag children => by
    unfold step
    split
    · refine .bind fun counted => .givenUp fun _ => ?_
      split
      · exact (Gives.lift (yields_steps true (depth + 1) children)).seq fun as has => .pure has
      · exact gives_delayStep tag inSequence
      · exact .bind fun _ => .bind fun _ => .bind fun _ => .bind fun _ => .pure True.intro
      · exact gives_varStep tag names _
    · exact .reject _ _ _

end

end Steps

/-! ## Elements -/

section Elements

variable (tag : OpenTag) (names : List String) {places : List Span}

/-- No attribute that is kept is unsafe. -/
theorem yields_safeAttributes (attrs : List Markup.Attr) :
    Yields r (safeAttributes tag attrs) fun as => ∀ a ∈ as, unsafeReason? a.1 a.2 = none := by
  induction attrs with
  | nil => exact .pure (List.forall_mem_nil _)
  | cons a attrs ih =>
    unfold safeAttributes
    split
    · exact .bind fun _ => ih
    · rename_i hsafe
      exact ih.seq fun as has => .pure (List.forall_mem_cons.2 ⟨hsafe, has⟩)

/-- Nodes with a meaning of their own take their attributes as they are written. -/
theorem formed_nodeOf (hp : tag.span ∈ places) (t : DslTag) : (nodeOf tag t).Formed places where
  unmarked := rfl
  attributes := Dict.nodup_keys_ofList _
  known := nofun
  safe := nofun
  handles h := absurd rfl h
  bindings := List.forall_mem_nil _
  place := hp

/-- Events go to nodes that handle them. -/
theorem formed_withBindings {n : Node} {bindings : List EventBinding} (h : n.Formed places)
    (hn : n.tag.handlesEvents = true) (hb : ∀ b ∈ bindings, b.Formed) :
    ({ n with bindings } : Node).Formed places := { h with bindings := hb, handles := fun _ => hn }

theorem formed_actions {kind : EventKind} {actions : List Action} (h : Action.FormedAll actions) :
    EventBinding.Formed { kind, actions } := ⟨nofun, h⟩

theorem yields_eventBindings (event : EventTag) (kind : EventKind) (depth : Nat)
    (children : List RawNode) :
    Yields r (eventBindings event kind names depth children) fun bs => ∀ b ∈ bs, b.Formed := by
  induction children with
  | nil => exact .pure (List.forall_mem_nil _)
  | cons n rest ih =>
    cases n with
    | text content span => exact ih
    | element tag children =>
      unfold eventBindings
      split
      · refine .bind fun counted => ?_
        split
        · refine (yields_steps names false (depth + 1) children).seq fun actions ha => ?_
          exact ih.seq fun more hmore => .pure (List.forall_mem_cons.2 ⟨formed_actions ha, hmore⟩)
        · exact ih
      · exact ih

theorem yields_fieldBindings (depth : Nat) (children : List RawNode) :
    Yields r (fieldBindings tag names depth children) fun bs => ∀ b ∈ bs, b.Formed := by
  induction children with
  | nil => exact .pure (List.forall_mem_nil _)
  | cons n rest ih =>
    unfold fieldBindings
    dsimp only
    split
    · rename_i event children
      split
      · refine .bind fun counted => ?_
        split
        · refine (yields_steps names false (depth + 1) children).seq fun actions ha => ?_
          exact ih.seq fun more hmore => .pure (List.forall_mem_cons.2 ⟨formed_actions ha, hmore⟩)
        · exact ih
      · exact .bind fun _ => ih
    · split
      · exact .bind fun _ => ih
      · exact ih

/-- A node with nothing below it that is formed. -/
def FormedLeaf (places : List Span) (n : Node) : Prop := n.Formed places ∧ n.children = []

theorem FormedLeaf.node {n : Node} (h : FormedLeaf places n) : Node.FormedAll places [n] :=
  .node h.1 (h.2 ▸ .mono .nil (List.nil_subset _) (Nat.zero_le _))

theorem gives_declaration (hp : tag.span ∈ places) (children : List RawNode) :
    Gives r (declaration tag children) (FormedLeaf places) := by
  have hend {α : Type} {x : Attempt α} {f : α → Draft → Draft} : Gives r (do
      let a ← x
      modify (f a)
      return nodeOf tag .var : Attempt Node) (FormedLeaf places) :=
    .bind fun _ => .bind fun _ => .pure ⟨formed_nodeOf tag hp _, rfl⟩
  refine .bind fun name => ?_
  split
  · exact .reject _ _ _
  · dsimp only
    split
    · exact .reject _ _ _
    · refine .bind fun d => ?_
      split
      · exact .reject _ _ _
      · refine .bind fun _ => ?_
        split
        · exact hend
        · exact hend
        · exact hend

theorem gives_showVar (hp : tag.span ∈ places) :
    Gives r (showVar tag names) (FormedLeaf places) := by
  have hend : Gives r (pure (nodeOf tag .showVar)) (FormedLeaf places) :=
    .pure ⟨formed_nodeOf tag hp _, rfl⟩
  refine .bind fun path => .bind fun _ => ?_
  dsimp only
  split
  · split
    · exact .bind fun _ => hend
    · exact hend
  · exact hend

theorem gives_inputField (hp : tag.span ∈ places) {t : DslTag}
    (ht : (Template.NodeTag.dsl t).handlesEvents = true) (depth : Nat) (children : List RawNode) :
    Gives r (inputField tag t names depth children) (FormedLeaf places) := by
  have hend : Gives r (do
      return { nodeOf tag t with bindings := ← fieldBindings tag names (depth + 1) children })
      (FormedLeaf places) :=
    (Gives.lift (yields_fieldBindings tag names (depth + 1) children)).seq fun bs hbs =>
      .pure ⟨formed_withBindings (formed_nodeOf tag hp t) ht hbs, rfl⟩
  refine .bind fun var => .bind fun found => ?_
  split
  · refine .bind fun readOnly => ?_
    split
    · exact .bind fun _ => hend
    · exact hend
  · exact hend

theorem gives_lifecycle (hp : tag.span ∈ places) {e : EventTag}
    (he : (Template.NodeTag.dsl (.event e)).handlesEvents = true) (depth : Nat)
    (children : List RawNode) :
    Gives r (lifecycle tag e names depth children) (FormedLeaf places) := by
  refine (Gives.lift (yields_steps names false (depth + 1) children)).seq fun actions ha => ?_
  have hend {b : EventBinding} (hb : b.Formed) :
      Gives r (pure { nodeOf tag (.event e) with bindings := [b] }) (FormedLeaf places) := by
    refine .pure ⟨formed_withBindings (formed_nodeOf tag hp _) he fun b' hb' => ?_, rfl⟩
    exact List.mem_singleton.1 hb' ▸ hb
  split
  · refine .bind fun raw => .bind fun rules => ?_
    dsimp only
    split
    · rename_i ms hms
      refine hend ⟨fun other ho => ?_, ha⟩
      exact Option.some.inj ho ▸ lt_of_wholeNumber? (Option.filter_eq_some_iff.1 hms).1
    · exact .reject _ _ _
  · exact hend (formed_actions ha)

theorem gives_leaf (hp : tag.span ∈ places) (t : DslTag) (depth : Nat) (children : List RawNode) :
    Gives r (leaf tag t names depth children) (FormedLeaf places) := by
  have hmisplaced : ∀ place, Gives r (misplaced tag place) (FormedLeaf places) :=
    fun place => .reject _ _ _
  cases t with
  | var => exact gives_declaration tag hp children
  | showVar => exact gives_showVar tag names hp
  | textInput | checkbox => exact gives_inputField tag names hp rfl depth children
  | event e =>
    cases e with
    | onMount | onInterval => exact gives_lifecycle tag names hp rfl depth children
    | onClick | onChange => exact hmisplaced _
  | resident t => exact .bind fun _ => .pure ⟨formed_nodeOf tag hp _, rfl⟩
  | action | caseBranch | defaultBranch | ifChain | ifBranch | elseIfBranch | elseBranch =>
    exact hmisplaced _
  | switch | forEach | button => exact .failure

end Elements

/-! ## Trees -/

section Trees

variable {span : Span} {places more : List Span}

theorem formedAll_toList {o : Option Node} (h : ∀ n, o = some n → Node.FormedAll places [n]) :
    Node.FormedAll places o.toList := by
  cases o with
  | none => exact .mono .nil (List.nil_subset _) (Nat.zero_le _)
  | some n => exact h n rfl

/-- Text stands at a place of its own. -/
theorem formedAll_text (content : String) {ns : List Node} (h : Node.FormedAll places ns) :
    Node.FormedAll (span :: places) ({ tag := .text content, span } :: ns) := by
  have htext : Node.FormedAll [span] [{ tag := .text content, span }] := by
    refine FormedLeaf.node ⟨?_, rfl⟩
    exact ⟨rfl, List.nodup_nil, nofun, nofun, nofun, List.forall_mem_nil _,
      List.mem_singleton_self _⟩
  exact htext.append h

/-- A node above others stands at a place of its own. -/
theorem formedAll_above {n : Node} {children : List Node} (hn : n.Formed [span])
    (hc : Node.FormedAll places children) :
    Node.FormedAll (span :: places) [{ n with children }] := by
  have hplace : n.span ∈ span :: places := List.mem_cons.2 (.inl (List.mem_singleton.1 hn.place))
  exact .node { hn with place := hplace } (hc.prepend [span])

/-- A chain stands where its first branch does. -/
theorem formedAll_chain {first branches ns : List Node}
    (hfirst : Node.FormedAll (span :: places) first)
    (h : Node.FormedAll more (branches ++ ns)) :
    Node.FormedAll (span :: places ++ more)
      ({ tag := .dsl .ifChain, children := first ++ branches, span } :: ns) where
  nodes m hm := by
    rw [Node.walkAll_cons, List.mem_cons] at hm
    rcases hm with rfl | hm
    · exact ⟨rfl, List.nodup_nil, nofun, nofun, nofun, List.forall_mem_nil _, List.mem_cons_self⟩
    · refine (hfirst.append h).nodes m ?_
      rwa [← List.append_assoc, Node.walkAll_append]
  width := by
    have hw := hfirst.width
    have hws := h.width
    rw [Node.widthAll_append] at hws
    rw [Node.widthAll, Node.width_eq, Node.widthAll_append, List.length_append]
    simp only [List.length_cons] at hw ⊢
    omega

mutual

/-- The nodes that are made of some markup are formed, and their places are those of the markup; the
induction is on the markup. -/
theorem yields_siblings (skipped : Skipped) (inChain : Bool) (p : Place) : (ns : List RawNode) →
    Yields r (siblings skipped inChain p ns) fun found =>
      Node.FormedAll (spansAll ns) (found.1 ++ found.2)
  | [] => .pure .nil
  | .text content span :: rest => by
    unfold siblings
    split
    · exact (yields_siblings skipped true p rest).mono fun _ hfound => hfound.prepend [span]
    · exact (yields_siblings skipped false p rest).seq fun found hfound =>
        .pure (formedAll_text content hfound.right)
  | .element tag children :: rest => by
    have hbranch := fun t => (gives_branch t p (.element tag children)).run
    have hrest := fun chain => yields_siblings skipped chain p rest
    unfold siblings
    split
    · exact (hrest inChain).mono fun _ hfound => hfound.prepend _
    · split
      · refine (hbranch .elseIfBranch).seq fun b hb => (hrest true).seq fun found hfound => .pure ?_
        rw [List.append_assoc]
        exact (formedAll_toList hb).append hfound
      · split
        · exact (hbranch .elseBranch).seq fun b hb => (hrest false).seq fun found hfound =>
            .pure ((formedAll_toList hb).append hfound.right)
        · split
          · exact (hbranch .ifBranch).seq fun b hb => (hrest true).seq fun found hfound =>
              .pure (formedAll_chain (formedAll_toList hb) hfound)
          · exact (gives_element p (.element tag children)).run.seq fun n hn =>
              (hrest false).seq fun found hfound =>
                .pure ((formedAll_toList hn).append hfound.right)

theorem gives_branch (t : DslTag) (p : Place) : (n : RawNode) →
    Gives r (branch t p n) fun b => Node.FormedAll n.spans [b]
  | .text .. => .failure
  | .element tag children => by
    have hend : Gives r (do
        let (_, nodes) ← siblings [] false (p.below 1) children
        return { nodeOf tag t with children := nodes })
        fun b => Node.FormedAll (spans (.element tag children)) [b] :=
      (Gives.lift (yields_siblings [] false (p.below 1) children)).seq fun found hfound =>
        .pure (formedAll_above (formed_nodeOf tag (List.mem_singleton_self _) t) hfound.right)
    unfold branch
    refine .bind fun counted => .givenUp fun _ => ?_
    dsimp only
    split
    · exact .bind fun _ => hend
    · exact hend

theorem yields_cases (p : Place) : (ns : List RawNode) →
    Yields r (cases p ns) (Node.FormedAll (spansAll ns))
  | [] => .pure .nil
  | n :: rest => by
    unfold cases
    exact (gives_caseOf p n).run.seq fun c hc => (yields_cases p rest).seq fun more hmore =>
      .pure ((formedAll_toList hc).append hmore)

theorem gives_caseOf (p : Place) : (n : RawNode) →
    Gives r (caseOf p n) fun c => Node.FormedAll n.spans [c]
  | .text content span => by
    unfold caseOf
    dsimp only
    split
    · exact .bind fun _ => .failure
    · exact .failure
  | .element tag children => by
    have hend (t : DslTag) : Gives r (do
        let (_, nodes) ← siblings [] false (p.below 1) children
        return { nodeOf tag t with children := nodes })
        fun c => Node.FormedAll (spans (.element tag children)) [c] :=
      (Gives.lift (yields_siblings [] false (p.below 1) children)).seq fun found hfound =>
        .pure (formedAll_above (formed_nodeOf tag (List.mem_singleton_self _) t) hfound.right)
    unfold caseOf
    split
    · exact .bind fun counted => .givenUp fun _ => .bind fun _ => hend .caseBranch
    · split
      · exact .bind fun counted => .givenUp fun _ => hend .defaultBranch
      · exact .bind fun _ => .failure

/-- An element that is kept is formed. -/
theorem gives_element (p : Place) : (n : RawNode) →
    Gives r (element p n) fun m => Node.FormedAll n.spans [m]
  | .text .. => .failure
  | .element tag children => by
    have hsiblings := fun skipped p =>
      Gives.lift (yields_siblings skipped false p children)
    have hdsl (t : DslTag) : (nodeOf tag t).Formed [tag.span] :=
      formed_nodeOf tag (List.mem_singleton_self _) t
    unfold element
    refine .bind fun counted => .givenUp fun _ => ?_
    dsimp only
    split
    · rename_i hhtml
      refine (Gives.lift (yields_safeAttributes tag tag.attrs)).seq fun attributes hsafe => ?_
      refine (hsiblings [] (p.below 1)).seq fun found hfound => .pure ?_
      refine formedAll_above
        (n := { tag := .html tag.name, attributes := Dict.ofList attributes, span := tag.span })
        ?_ hfound.right
      refine ⟨rfl, Dict.nodup_keys_ofList _, ?_,
        fun _ _ a ha => hsafe a (Dict.mem_of_mem_ofList ha), nofun, List.forall_mem_nil _,
        List.mem_singleton_self _⟩
      rintro name ⟨⟩
      exact hhtml
    · split
      · exact .reject _ _ _
      · exact .bind fun _ =>
          (Gives.lift (yields_cases (p.below 1) children)).seq fun nodes hnodes =>
          .pure (formedAll_above (hdsl .switch) hnodes)
      · exact .bind fun path => .bind fun _ => .bind fun bound =>
          (hsiblings [] ⟨p.names ++ bound, p.depth + 1⟩).seq fun found hfound =>
            .pure (formedAll_above (hdsl .forEach) hfound.right)
      · refine (Gives.lift
          (yields_eventBindings p.names .onClick .click (p.depth + 1) children)).seq
          fun bindings hbindings => ?_
        exact (hsiblings [EventTag.onClick.name] (p.below 1)).seq fun found hfound =>
          .pure (formedAll_above (formed_withBindings (hdsl .button) rfl hbindings) hfound.right)
      · have hleaf := fun t => gives_leaf (r := r) tag p.names (List.mem_singleton_self tag.span) t
          p.depth children
        refine fun d n hn => (hleaf _ d n hn).node.mono ?_ ?_
        · exact List.cons_subset_cons _ (List.nil_subset _)
        · exact Nat.succ_le_succ (Nat.zero_le _)

end

end Trees

end Compile

end Archipelago
