import Archipelago.Proofs.Compile.Marks
import Archipelago.Proofs.Page.Islands
import Archipelago.Proofs.Page.Reads
import Archipelago.Proofs.Page.Visits

/-!
# What stands outside of islands

A page without what its islands hold comes from the nodes that are no islands. None of them reads a
variable that counts as interactive, so two scopes that agree on all the others give the same. The
two renderings are related step by step: they draw the same places and leave the same names behind.
-/

namespace Archipelago

namespace Island

variable {names : List String} {n : Template.Node}

theorem not_active_of_not_interactive (h : isInteractive names n = false) : ¬n.Active names :=
  fun hactive => Bool.false_ne_true (h.symm.trans (isInteractive_iff.2 (.inl hactive)))

/-- What is not interactive on its own account reads none of the names. -/
theorem notMem_of_mem_reads (h : isInteractive names n = false) : ∀ dep ∈ n.reads, dep ∉ names :=
  fun _ hdep hname => not_active_of_not_interactive h (.reads hdep hname)

/-- No field is outside of islands. -/
theorem inputVar?_of_not_interactive (h : isInteractive names n = false) : n.inputVar? = none := by
  have hfield := fun hinput => not_active_of_not_interactive h (.input hinput)
  unfold Template.Node.inputVar?
  split
  case h_1 htag => exact absurd (.inl (decide_eq_true htag)) hfield
  case h_2 htag => exact absurd (.inr (decide_eq_true htag)) hfield
  case h_3 => rfl

mutual

theorem forall_walk_of_not_interactive : (n : Template.Node) → isInteractive names n = false →
    anyInteractive names n.children = false → ∀ m ∈ n.walk, isInteractive names m = false
  | ⟨tag, attributes, children, span, bindings, island⟩, hn, hc => by
    exact Template.Node.forall_walk.2 ⟨hn, forall_walkAll_of_not_interactive children hc⟩

/-- Where nothing is interactive, nothing below is. -/
theorem forall_walkAll_of_not_interactive : (ns : List Template.Node) →
    anyInteractive names ns = false →
      ∀ m ∈ Template.Node.walkAll ns, isInteractive names m = false
  | [], _ => List.forall_mem_nil _
  | ⟨tag, attributes, children, span, bindings, island⟩ :: ns, h => by
    unfold anyInteractive at h
    rw [Bool.or_eq_false_iff, Bool.or_eq_false_iff] at h
    unfold Template.Node.walkAll
    refine List.forall_mem_append.2 ⟨?_, forall_walkAll_of_not_interactive ns h.2⟩
    exact forall_walk_of_not_interactive _ h.1.1 h.1.2

end

end Island

namespace Page

namespace Node

mutual

/-- A page without what its islands hold. -/
def erased : Node → Node
  | text content => text content
  | raw html => raw html
  | fragment children => fragment (erasedAll children)
  | element tag attributes children => element tag attributes (erasedAll children)
  | island id component _ => island id component []

def erasedAll : List Node → List Node
  | [] => []
  | n :: ns => erased n :: erasedAll ns

end

@[simp] theorem erasedAll_append (ns ms : List Node) :
    erasedAll (ns ++ ms) = erasedAll ns ++ erasedAll ms := by
  induction ns with
  | nil => rfl
  | cons n ns ih => simp [erasedAll, ih]

end Node

/-! ## Two renderings -/

/-- Two pages in the making that cannot be told apart outside of islands. -/
structure Drawing.Level (d d' : Drawing) : Prop where
  handlers : d.handlers = d'.handlers
  islands : d.islands = d'.islands

/-- Two steps that draw the same outside of islands. -/
def Alike (x y : Draw (List Node)) : Prop :=
  ∀ d d' : Drawing, d.Level d' →
    Node.erasedAll (x.run d).1 = Node.erasedAll (y.run d').1 ∧ (x.run d).2.Level (y.run d').2

section

variable {α : Type} {x y : Draw (List Node)} {d d' : Drawing}

theorem Inner.level {x : Draw α} (h : Inner x) (hd : d.Level d') :
    (x.run d).2.Level (x.run d').2 where
  handlers := h.handlers d d' hd.handlers
  islands := by rw [h.islands, h.islands, hd.islands]

namespace Alike

theorem of_inner (h : Inner x) : Alike x x := fun d d' hd =>
  ⟨congrArg Node.erasedAll (h.result d d' hd.handlers), h.level hd⟩

theorem bind {x : Draw α} {f g : α → Draw (List Node)} (hx : Inner x) (h : ∀ a, Alike (f a) (g a)) :
    Alike (x >>= f) (x >>= g) := by
  intro d d' hd
  have hresult : (x.run d).1 = (x.run d').1 := hx.result d d' hd.handlers
  have hnext := h (x.run d).1 _ _ (hx.level hd)
  show _ = Node.erasedAll ((g (x.run d').1).run (x.run d').2).1 ∧
    Drawing.Level _ ((g (x.run d').1).run (x.run d').2).2
  rw [← hresult]
  exact hnext

theorem append {x' y' : Draw (List Node)} (hx : Alike x x') (hy : Alike y y') :
    Alike (do return (← x) ++ (← y)) (do return (← x') ++ (← y')) := by
  intro d d' hd
  obtain ⟨hfirst, hlevel⟩ := hx d d' hd
  obtain ⟨hmore, hlevel'⟩ := hy _ _ hlevel
  refine ⟨?_, hlevel'⟩
  show Node.erasedAll ((x.run d).1 ++ (y.run (x.run d).2).1) =
    Node.erasedAll ((x'.run d').1 ++ (y'.run (x'.run d').2).1)
  rw [Node.erasedAll_append, Node.erasedAll_append, hfirst, hmore]

theorem element (h : Alike x y) (tag : String) (attributes : Dict String) :
    Alike (do return [.element tag attributes (← x)])
      (do return [.element tag attributes (← y)]) := by
  intro d d' hd
  obtain ⟨hchildren, hlevel⟩ := h d d' hd
  refine ⟨?_, hlevel⟩
  show [Node.element tag attributes (Node.erasedAll (x.run d).1)] =
    [Node.element tag attributes (Node.erasedAll (y.run d').1)]
  rw [hchildren]

theorem choose {x' y' : Draw (List Node)} (hx : Alike x x') (hy : Alike y y') (taken : Bool) :
    Alike (if taken then x else y) (if taken then x' else y') := by
  cases taken with
  | true => exact hx
  | false => exact hy

/-- Islands of one name are alike, whatever they hold. -/
theorem enclose (hx : Inner x) (hy : Inner y) (id component : String) :
    Alike (enclose (some id) false component x) (enclose (some id) false component y) := by
  intro d d' hd
  refine ⟨rfl, hd.handlers, ?_⟩
  show (x.run { d with handlers := [] }).2.islands ++ [id] =
    (y.run { d' with handlers := [] }).2.islands ++ [id]
  rw [hx.islands, hy.islands, hd.islands]

end Alike

end

/-! ## Trees -/

/-- Trees as a compilation makes them, before it marks the islands. The nodes that are no islands
read nothing but these variables. -/
structure Ground (sc : Scoping) (s : Island.Survey) (reads : List String)
    (ns : List Template.Node) :
    Prop where
  limits : sc.limits.Le {}
  checked : sc.CheckedAll [] ns
  unmarked : ∀ n ∈ Template.Node.walkAll ns, n.island = none
  handles : ∀ n ∈ Template.Node.walkAll ns, n.bindings ≠ [] → n.tag.handlesEvents = true
  reads : ∀ n ∈ Template.Node.walkAll ns, Island.isInteractive s.reactive n = false →
    ∀ dep ∈ n.reads, dep ∈ reads

namespace Ground

variable {sc : Scoping} {s : Island.Survey} {reads : List String} {n : Template.Node}
  {ns : List Template.Node}

theorem mono (h : Ground sc s reads ns) {ms : List Template.Node} (hc : sc.CheckedAll [] ms)
    (hsub : Template.Node.walkAll ms ⊆ Template.Node.walkAll ns) : Ground sc s reads ms where
  limits := h.limits
  checked := hc
  unmarked n hn := h.unmarked n (hsub hn)
  handles n hn := h.handles n (hsub hn)
  reads n hn := h.reads n (hsub hn)

theorem head (h : Ground sc s reads (n :: ns)) : Ground sc s reads [n] :=
  h.mono ⟨h.checked.1, True.intro⟩ (by simp [Template.Node.walkAll])

theorem tail (h : Ground sc s reads (n :: ns)) : Ground sc s reads ns :=
  h.mono h.checked.2 (List.subset_append_right _ _)

theorem children (h : Ground sc s reads [n]) (hloop : n.isDsl .forEach = false) :
    Ground sc s reads n.children := by
  refine h.mono ?_ ?_
  · have hchildren := ((Scoping.checked_iff _ _).1 h.checked.1).2
    rwa [Template.Node.loopNames, if_neg (Bool.eq_false_iff.1 hloop)] at hchildren
  · rw [Template.Node.walkAll_singleton]
    exact n.walkAll_children_subset

/-- A node that is no island is covered by what such nodes read. -/
theorem coversNode (h : Ground sc s reads [n]) {limits : EvalLimits} (hl : limits.Le {})
    (hn : Island.isInteractive s.reactive n = false) : Known.CoversNode ⟨limits, reads⟩ [] n := by
  refine Archipelago.coversNode h.limits hl ((Scoping.checked_iff _ _).1 h.checked.1).1
    (List.forall_mem_nil _) (h.reads n (Template.Node.mem_walkAll_self List.mem_cons_self) hn)
      fun var hvar => ?_
  rw [Island.inputVar?_of_not_interactive hn] at hvar
  cases hvar

/-- A tree without islands is covered by what it reads. -/
theorem covers (h : Ground sc s reads [n]) {limits : EvalLimits} (hl : limits.Le {})
    (hn : ∀ m ∈ n.walk, Island.isInteractive s.reactive m = false) :
    Known.Covers ⟨limits, reads⟩ [] n := by
  refine covers_of_checked h.limits hl [] (List.forall_mem_nil _) n h.checked.1 ⟨fun m hm => ?_, ?_⟩
  · exact h.reads m (List.mem_append_left _ hm) (hn m hm)
  · intro m hm var hvar
    rw [Island.inputVar?_of_not_interactive (hn m hm)] at hvar
    cases hvar

end Ground

/-- The parts of chains and switches are no islands, since they do nothing. -/
theorem not_interactive_of_part (names : List String) {n : Template.Node}
    (hb : n.bindings ≠ [] → n.tag.handlesEvents = true)
    (ht : n.isBranch = true ∨ n.isDsl .caseBranch = true ∨ n.isDsl .defaultBranch = true) :
    Island.isInteractive names n = false := by
  obtain ⟨tag, attributes, children, span, bindings, island⟩ := n
  have hidle (h : tag.handlesEvents = false) : bindings = [] :=
    Classical.not_not.1 fun hne => Bool.false_ne_true (h.symm.trans (hb hne))
  cases tag with
  | dsl t =>
    cases t with
    | ifBranch | elseIfBranch | elseBranch | caseBranch | defaultBranch =>
      obtain rfl := hidle rfl
      rfl
    | _ => simp [Template.Node.isBranch, Template.Node.isDsl, Template.Node.dsl?] at ht
  | _ => simp [Template.Node.isBranch, Template.Node.isDsl, Template.Node.dsl?] at ht

/-- What is chosen of a switch is a case or the default. -/
theorem isPart_of_chosen {value : Value} {cs : List Template.Node} {c : Template.Node}
    (h : chosen value cs c = true) :
    c.isDsl .caseBranch = true ∨ c.isDsl .defaultBranch = true := by
  unfold chosen at h
  split at h
  · exact .inl (Bool.and_eq_true_iff.1 h).1
  · exact .inr h

theorem Alike.of_eq {x y : Draw (List Node)} (h : y = x) (hx : Inner x) : Alike x y :=
  h.symm ▸ .of_inner hx

/-- A view with nothing bound, and another scope that gives the same for what is known. -/
structure Known.Shared (k : Known) (v : View) (scope : Scope) : Prop where
  limits : k.limits.Le {}
  within : View.Within k.limits [] v
  agree : Scope.AgreeOn k.reads v.scope scope

section

variable {k : Known} {v : View} {scope : Scope}

/-- Only a chain looks at what is below it. -/
theorem Known.CoversNode.withChildren {names : List String} {n : Template.Node}
    (h : k.CoversNode names n) (hn : n.isDsl .ifChain = false) (kids : List Template.Node) :
    k.CoversNode names { n with children := kids } := by
  obtain ⟨tag, attributes, children, span, bindings, island⟩ := n
  cases tag with
  | dsl t =>
    cases t with
    | ifChain => cases hn
    | _ => exact h
  | _ => exact h

/-- What a node draws that is no island, if it is known of what is drawn below it. -/
theorem alike_body (r : Renderer) (h : k.Shared v scope) {n : Template.Node}
    (hn : n.isDsl .ifChain = false → k.CoversNode [] n) (hloop : n.isDsl .forEach = false)
    (hnodes : Alike (nodes r false v n.children) (nodes r false (v.withScope scope) n.children))
    (hbranch : n.isDsl .ifChain = true → Alike (firstBranch r false v n.children)
      (firstBranch r false (v.withScope scope) n.children))
    (hwhere : ∀ value, Alike (firstWhere r false v (chosen value n.children) n.children)
      (firstWhere r false (v.withScope scope) (chosen value n.children) n.children)) :
    Alike (body r false v n) (body r false (v.withScope scope) n) := by
  obtain ⟨-, hv, hs⟩ := h
  obtain ⟨tag, attributes, children, span, bindings, island⟩ := n
  cases tag with
  | fragment => exact hnodes
  | text content => exact .of_inner (.pure _)
  | html name => exact hnodes.element name attributes
  | dsl t =>
    cases t with
    | showVar => exact .of_eq (showVar_congr hv hs (hn rfl)) (quiet_showVar _ _).inner
    | ifChain => exact hbranch rfl
    | switch =>
      simp only [body]
      rw [switchValue_congr hv hs rfl (hn rfl)]
      exact .bind (inner_switchValue _ _) hwhere
    | forEach => cases hloop
    | button => exact .bind (inner_buttonAttributes _ _) fun _ => hnodes.element _ _
    | textInput | checkbox => exact .of_eq (field_congr hs _ (hn rfl)) (quiet_field _ _ _).inner
    | event e =>
      cases e with
      | onMount | onInterval =>
        exact .of_eq (lifecycle_congr _ scope bindings) (quiet_lifecycle _ _).inner
      | onClick | onChange => exact .of_inner (.pure _)
    | resident t =>
      exact .of_eq (congrArg (fun n => pure [n]) (residentNode_congr hs r t attributes)) (.pure _)
    | _ => exact .of_inner (.pure _)

end

/-! ## Marked trees -/

/-- An island has the same place in both pages. -/
theorem alike_island (r : Renderer) (v v' : View) {i : Island} {n : Template.Node}
    (hi : i.node = { n with island := some i.id }) (hcomponent : i.component = n.tag.name) :
    Alike (node r false v i.node) (node r false v' i.node) := by
  have hinner (v : View) : Inner (node r true v i.node) :=
    (quiet_node r true v i.node (.inl rfl) (.inl rfl)).inner
  rw [node_island r v hi hcomponent, node_island r v' hi hcomponent]
  exact .enclose (hinner v) (hinner v') _ _

section

variable {k : Known} {sc : Scoping} {v : View} {scope : Scope} (r : Renderer) (s : Island.Survey)

/-- A loop that is no island has none below it, so it is drawn the same. -/
theorem alike_loop (h : k.Shared v scope) {n : Template.Node} (hn : Ground sc s k.reads [n])
    (hinert : Island.isInteractive s.reactive n = false) (hloop : n.isDsl .forEach = true) :
    Alike (node r false v n) (node r false (v.withScope scope) n) := by
  have hnone := s.anyInteractive_children hinert hloop
  have hall := Island.forall_walk_of_not_interactive n hinert hnone
  refine .of_eq (node_congr r false h.within h.agree n (hn.covers h.limits hall)) ?_
  refine (quiet_node r false v n
    (.inr (hn.unmarked n (Template.Node.mem_walkAll_self List.mem_cons_self))) ?_).inner
  exact .inr fun m hm => hn.unmarked m (List.mem_append_left _ (n.walkAll_children_subset hm))

mutual

/-- A marked tree is drawn the same outside of its islands. -/
theorem alike_mark (h : k.Shared v scope) (found : List Island) :
    (n : Template.Node) → Ground sc s k.reads [n] →
    Alike (node r false v (s.mark found n).1) (node r false (v.withScope scope) (s.mark found n).1)
  | ⟨tag, attributes, children, span, bindings, island⟩, hn => by
    rw [Island.Survey.mark_eq]
    split
    · exact alike_island r _ _ (s.node_islandOf _ _) (s.component_islandOf _ _)
    · rename_i hinteractive
      have hinert := Bool.eq_false_iff.2 hinteractive
      have hisland : island = none :=
        hn.unmarked _ (Template.Node.mem_walkAll_self List.mem_cons_self)
      subst hisland
      by_cases hloop : Template.Node.isDsl ⟨tag, attributes, children, span, bindings, none⟩
          .forEach = true
      · rw [s.markAll_of_not_interactive found children (s.anyInteractive_children hinert hloop)]
        exact alike_loop r s h hn hinert hloop
      · have hchildren := hn.children (Bool.eq_false_iff.2 hloop)
        have hcovers := hn.coversNode h.limits hinert
        rw [node_eq, node_eq]
        refine alike_body r h (fun hchain => hcovers.withChildren hchain _)
          (Bool.eq_false_iff.2 hloop) (alike_markAll h found children hchildren) (fun hchain => ?_)
          fun value => alike_firstWhere h _ (fun _ hc => isPart_of_chosen hc)
            found children hchildren
        refine alike_firstBranch h found children hchildren fun c hc =>
          ⟨?_, hcovers.branch hchain c hc⟩
        have ha := ((Scoping.checked_iff _ _).1 hn.checked.1).1.attributes
        unfold Scoping.CheckedAttributes at ha
        rw [show Template.Node.dsl? ⟨tag, attributes, children, span, bindings, none⟩ = _ from
          of_decide_eq_true hchain] at ha
        exact (ha c hc).1

theorem alike_markAll (h : k.Shared v scope) (found : List Island) : (ns : List Template.Node) →
    Ground sc s k.reads ns →
    Alike (nodes r false v (s.markAll found ns).1)
      (nodes r false (v.withScope scope) (s.markAll found ns).1)
  | [], _ => .of_inner (.pure _)
  | n :: ns, hns => (alike_mark h found n hns.head).append (alike_markAll h _ ns hns.tail)

theorem alike_firstBranch (h : k.Shared v scope) (found : List Island) :
    (ns : List Template.Node) → Ground sc s k.reads ns →
    (∀ c ∈ ns, c.isBranch = true ∧ (c.isDsl .elseBranch = false → k.CoversCondition [] c)) →
    Alike (firstBranch r false v (s.markAll found ns).1)
      (firstBranch r false (v.withScope scope) (s.markAll found ns).1)
  | [], _, _ => .of_inner (.pure _)
  | ⟨tag, attributes, children, span, bindings, island⟩ :: ns, hns, hc => by
    obtain ⟨hbranch, hcondition⟩ := hc _ List.mem_cons_self
    have hinert := not_interactive_of_part s.reactive
      (hns.handles _ (Template.Node.mem_walkAll_self List.mem_cons_self)) (.inl hbranch)
    have hchildren := hns.head.children (Template.Node.not_forEach_of_isBranch hbranch)
    have hfirst := alike_markAll h found children hchildren
    have hrest := fun found => alike_firstBranch h found ns hns.tail
      fun c hm => hc c (List.mem_cons_of_mem _ hm)
    unfold Island.Survey.markAll
    rw [Island.Survey.mark_eq, hinert, if_neg Bool.false_ne_true]
    dsimp only
    rw [firstBranch_cons, firstBranch_cons]
    split
    · exact .bind (.pure true) (hfirst.choose (hrest _))
    · rename_i helse
      have hmarked : k.CoversCondition [] ⟨tag, attributes, (s.markAll found children).1, span,
          bindings, island⟩ := hcondition (Bool.eq_false_iff.2 helse)
      rw [condition_congr h.within h.agree hmarked]
      exact .bind (inner_condition _ _) (hfirst.choose (hrest _))

theorem alike_firstWhere (h : k.Shared v scope) (p : Template.Node → Bool)
    (hp : ∀ c, p c = true → c.isDsl .caseBranch = true ∨ c.isDsl .defaultBranch = true)
    (found : List Island) : (ns : List Template.Node) → Ground sc s k.reads ns →
    Alike (firstWhere r false v p (s.markAll found ns).1)
      (firstWhere r false (v.withScope scope) p (s.markAll found ns).1)
  | [], _ => .of_inner (.pure _)
  | ⟨tag, attributes, children, span, bindings, island⟩ :: ns, hns => by
    have hmark := s.marked_mark found ⟨tag, attributes, children, span, bindings, island⟩
    have hrest := fun found => alike_firstWhere h p hp found ns hns.tail
    have hfirst := fun hloop => alike_markAll h found children (hns.head.children hloop)
    unfold Island.Survey.markAll
    dsimp only
    rw [firstWhere_cons, firstWhere_cons]
    split
    · rename_i hchosen
      have hpart := hp _ hchosen
      rw [hmark.isDsl, hmark.isDsl] at hpart
      have hinert := not_interactive_of_part s.reactive
        (hns.handles _ (Template.Node.mem_walkAll_self List.mem_cons_self)) (.inr hpart)
      rw [Island.Survey.mark_eq, hinert, if_neg Bool.false_ne_true]
      refine hfirst (hpart.elim ?_ ?_)
      · exact fun hcase => Template.Node.isDsl_of_ne hcase (by decide)
      · exact fun hdefault => Template.Node.isDsl_of_ne hdefault (by decide)
    · exact hrest _

end

end

end Page

end Archipelago
