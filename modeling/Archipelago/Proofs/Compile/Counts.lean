import Archipelago.Proofs.Action.Sequence
import Archipelago.Proofs.Compile.Attributes
import Archipelago.Proofs.Compile.Extract

/-!
# Elements are counted

An element is counted before anything is made of it, and so is a step of an event. What a part of a
compilation comes to is therefore never more than what it counts, together with what has been
counted for it before, and over parts in a row this adds up. A compilation that ends without errors
has not counted more than it may.
-/

namespace Archipelago

/-- The steps of some events, those in sequences among them. -/
def EventBinding.sizeAll (bindings : List EventBinding) : Nat :=
  (bindings.map fun b => Action.sizeAll b.actions).sum

namespace Template.Node

/-- The steps of the events of a node. -/
def steps (n : Node) : Nat := EventBinding.sizeAll n.bindings

/-- What has to be counted for a node alone. -/
def cost (n : Node) : Nat := (if n.isElement then 1 else 0) + n.steps

/-- What has to be counted for some trees. -/
def costAll (ns : List Node) : Nat := ((walkAll ns).map cost).sum

theorem costAll_append (ns ms : List Node) : costAll (ns ++ ms) = costAll ns + costAll ms := by
  unfold costAll
  rw [walkAll_append, List.map_append, List.sum_append]

theorem costAll_cons (n : Node) (ns : List Node) :
    costAll (n :: ns) = n.cost + costAll n.children + costAll ns := by
  unfold costAll
  rw [walkAll_cons, List.map_cons, List.sum_cons, List.map_append, List.sum_append, Nat.add_assoc]

theorem costAll_singleton (n : Node) : costAll [n] = n.cost + costAll n.children :=
  costAll_cons n []

/-- A node costs at most itself and the steps of its events. -/
theorem cost_le (n : Node) : n.cost ≤ 1 + n.steps := by
  unfold cost
  refine Nat.add_le_add_right ?_ _
  split
  · exact Nat.le_refl _
  · exact Nat.zero_le _

theorem costAll_singleton_le (n : Node) : costAll [n] ≤ 1 + n.steps + costAll n.children :=
  n.costAll_singleton ▸ Nat.add_le_add_right n.cost_le _

/-- What some nodes cost are the elements among them and the steps. -/
theorem sum_cost (ns : List Node) :
    (ns.map cost).sum = (ns.filter (·.isElement)).length + (ns.map steps).sum := by
  induction ns with
  | nil => rfl
  | cons n ns ih =>
    rw [List.map_cons, List.sum_cons, ih, List.map_cons, List.sum_cons, List.filter_cons, cost]
    split
    · rw [List.length_cons]
      omega
    · omega

end Template.Node

namespace Compile

open Markup (OpenTag RawNode)
open Template (Node)

variable {r : Rules}

section

variable {α β : Type} {k : Nat}

/-- What a step comes to weighs no more than the elements it counts and `k` counted before it. -/
def Counts (r : Rules) (k : Nat) (x : Build α) (weight : α → Nat) : Prop :=
  ∀ d, d.elements + weight (x r d).1 ≤ (x r d).2.elements + k

/-- The same of a step that may come to nothing, which weighs nothing. -/
def CountsSome (r : Rules) (k : Nat) (x : Attempt α) (weight : α → Nat) : Prop :=
  Counts r k x.run fun o => o.elim 0 weight

namespace Counts

variable {x : Build α} {f : α → Build β} {v : α → Nat} {w : β → Nat}

theorem pure {a : α} (h : v a ≤ k) : Counts r k (Pure.pure a) v := fun _ => Nat.add_le_add_left h _

/-- What the first of two steps comes to has been counted before the second one. -/
theorem bind (hx : Counts r k x v) (hf : ∀ a, Counts r (v a) (f a) w) : Counts r k (x >>= f) w := by
  intro d
  have hfirst := hx d
  have hsecond := hf (x r d).1 (x r d).2
  show d.elements + w (f (x r d).1 r (x r d).2).1 ≤ (f (x r d).1 r (x r d).2).2.elements + k
  omega

/-- What has been counted before a step is there behind it if the step goes without. -/
theorem onto (hx : Counts r 0 x v) (k : Nat) : Counts r k x fun a => k + v a := by
  intro d
  have h := hx d
  show d.elements + (k + v (x r d).1) ≤ (x r d).2.elements + k
  omega

/-- The step takes less than has been counted. -/
theorem spare (hx : Counts r 0 x v) (k : Nat) : Counts r k x v :=
  fun d => Nat.le_trans (hx d) (Nat.le_add_right _ _)

/-- No element is taken back, whatever names are known. -/
theorem of_ensures {Q : α → Prop} (hx : Ensures r (fun _ => True) x Q) : Counts r k x fun _ => k :=
  fun d => Nat.add_le_add_right (hx d).1.elements k

theorem after {Q : α → Prop} (hx : Ensures r (fun _ => True) x Q) (hf : ∀ a, Counts r k (f a) w) :
    Counts r k (x >>= f) w := (of_ensures hx).bind hf

/-- An element is counted, be it let through or not. -/
theorem countElement (span : Span) (depth : Nat) :
    Counts r k (countElement span depth) fun _ => 1 + k := by
  intro d
  have helements : (Compile.countElement span depth r d).2.elements = d.elements + 1 := by
    rcases countElement_cases r span depth d with ⟨_, h⟩ | ⟨_, h⟩ | ⟨_, h⟩ | ⟨_, h⟩ <;> rw [h]
  rw [helements, Nat.add_assoc]

/-- An element that is counted may be spent behind that. -/
theorem element {f : Bool → Build β} {span : Span} {depth : Nat}
    (hf : ∀ b, Counts r (1 + k) (f b) w) :
    Counts r k (Compile.countElement span depth >>= f) w := (countElement span depth).bind hf

end Counts

namespace CountsSome

variable {x : Attempt α} {f : α → Attempt β} {v : α → Nat} {w : β → Nat}

theorem pure {a : α} (h : v a ≤ k) : CountsSome r k (Pure.pure a) v := Counts.pure h

theorem failure : CountsSome r k (Alternative.failure : Attempt α) v := Counts.pure (Nat.zero_le _)

theorem lift {y : Build α} (h : Counts r k y v) : CountsSome r k (liftM y : Attempt α) v :=
  h.bind fun _ => Counts.pure (Nat.le_refl _)

theorem bind (hx : CountsSome r k x v) (hf : ∀ a, CountsSome r (v a) (f a) w) :
    CountsSome r k (x >>= f) w := by
  unfold CountsSome
  rw [OptionT.run_bind]
  refine Counts.bind hx fun o => ?_
  cases o with
  | none => exact Counts.pure (Nat.le_refl _)
  | some a => exact hf a

theorem after {Q : α → Prop} (hx : EnsuresSome r (fun _ => True) x Q)
    (hf : ∀ a, CountsSome r k (f a) w) : CountsSome r k (x >>= f) w := by
  refine bind (v := fun _ => k) (fun d => ?_) hf
  have h := Counts.of_ensures (k := k) hx d
  refine Nat.le_trans (Nat.add_le_add_left ?_ _) h
  cases (x.run r d).1 with
  | none => exact Nat.zero_le _
  | some a => exact Nat.le_refl _

/-- A step that gives nothing but what has been counted before. -/
theorem of_gives {Q : α → Prop} (hx : EnsuresSome r (fun _ => True) x Q)
    (hg : Gives r x fun a => v a ≤ k) : CountsSome r k x v := by
  intro d
  refine Nat.add_le_add (hx d).1.elements ?_
  cases ha : (x.run r d).1 with
  | none => exact Nat.zero_le _
  | some a => exact hg d a ha

theorem element {f : Bool → Attempt β} {span : Span} {depth : Nat}
    (hf : ∀ b, CountsSome r (1 + k) (f b) w) :
    CountsSome r k (liftM (countElement span depth) >>= f) w :=
  (lift (Counts.countElement span depth)).bind hf

theorem givenUp {c : Bool} {f : PUnit → Attempt β} (h : ∀ u, CountsSome r k (f u) w) :
    CountsSome r k (if c = true then Alternative.failure >>= f else f ⟨⟩) w := by
  split
  · exact failure.bind (v := fun _ => k) h
  · exact h _

theorem reject (kind : CompileErrorKind) (span : Span) (message : String) :
    CountsSome r k (reject kind span message : Attempt α) v :=
  after (.lift (ensures_report kind span message fun _ => False)) fun _ => .failure

end CountsSome

end

/-! ## Steps of events -/

/-- Any name will do. -/
theorem admits_all : Admits r fun _ => True := fun _ _ => True.intro

section Steps

variable (tag : OpenTag) (names : List String)

theorem flat_delayStep (inSequence : Bool) : Gives r (delayStep tag inSequence) (·.size ≤ 1) := by
  unfold delayStep
  split
  · exact .reject _ _ _
  · refine .bind fun raw => ?_
    split
    · exact .pure (Nat.le_refl _)
    · exact .reject _ _ _

theorem flat_mergeStep : Gives r (mergeStep tag) (·.size ≤ 1) :=
  .bind fun _ => .bind fun _ => .bind fun _ => .bind fun _ => .pure (Nat.le_refl _)

/-- A step that is made of one tag is no larger than one. -/
theorem flat_varStep (a : ActionTag) : Gives r (varStep tag a names) (·.size ≤ 1) := by
  unfold varStep
  refine .bind fun var => ?_
  cases a with
  | toggle | reset | pop => exact .bind fun _ => .pure (Nat.le_refl _)
  | set | push | increment | decrement | cycle | clone =>
    exact .bind fun _ => .bind fun _ => .pure (Nat.le_refl _)
  | removeAt | objectSet | sum =>
    exact .bind fun _ => .bind fun _ => .bind fun _ => .pure (Nat.le_refl _)
  | filter | find | transform | sort =>
    exact .bind fun _ => .bind fun _ => .bind fun _ => .bind fun _ => .pure (Nat.le_refl _)
  | merge | sequence | delay => exact .bind fun _ => .failure

mutual

/-- Steps are counted one by one. What the first of them comes to has been counted when the others
are gone through. -/
theorem counts_steps (inSequence : Bool) (depth : Nat) : (ns : List RawNode) →
    Counts r 0 (steps names inSequence depth ns) Action.sizeAll
  | [] => .pure (Nat.le_refl _)
  | n :: rest => by
    unfold steps
    refine Counts.bind (counts_step inSequence depth n) fun a => ?_
    refine ((counts_steps inSequence depth rest).onto _).bind fun more => .pure ?_
    rw [Action.sizeAll_append]
    refine Nat.add_le_add_right ?_ _
    cases a with
    | none => exact Nat.le_refl _
    | some a => exact Nat.le_refl _

/-- A step is counted, and so are those in it. -/
theorem counts_step (inSequence : Bool) (depth : Nat) : (n : RawNode) →
    CountsSome r 0 (step names inSequence depth n) Action.size
  | .text content span => by
    unfold step
    split
    · exact .failure
    · exact .reject _ _ _
  | .element tag children => by
    unfold step
    split
    · refine .element fun counted => .givenUp fun _ => ?_
      dsimp only
      split
      · have hsteps := counts_steps true (depth + 1) children
        refine (CountsSome.lift (hsteps.onto _)).bind fun as => .pure ?_
        rw [Action.size, Nat.add_comm]
      · exact .of_gives (ensures_delayStep tag names inSequence)
          (flat_delayStep tag inSequence)
      · exact .of_gives (ensures_mergeStep admits_all tag names) (flat_mergeStep tag)
      · exact .of_gives (ensures_varStep admits_all tag names _) (flat_varStep tag names _)
    · exact .reject _ _ _

end

end Steps

/-! ## Elements -/

section Elements

variable (tag : OpenTag) (names : List String)

/-- The elements of events are counted as well, though no nodes are made of them. -/
theorem counts_eventBindings (event : EventTag) (kind : EventKind) (depth : Nat)
    (children : List RawNode) :
    Counts r 0 (eventBindings event kind names depth children) EventBinding.sizeAll := by
  induction children with
  | nil => exact .pure (Nat.le_refl _)
  | cons n rest ih =>
    cases n with
    | text content span => exact ih
    | element tag children =>
      unfold eventBindings
      split
      · refine .element fun counted => ?_
        split
        · refine ((counts_steps names false (depth + 1) children).onto _).bind fun actions => ?_
          refine (ih.onto _).bind fun more => .pure ?_
          exact Nat.add_le_add_right (Nat.le_add_left _ _) _
        · exact ih.spare _
      · exact ih

theorem counts_fieldBindings (depth : Nat) (children : List RawNode) :
    Counts r 0 (fieldBindings tag names depth children) EventBinding.sizeAll := by
  induction children with
  | nil => exact .pure (Nat.le_refl _)
  | cons n rest ih =>
    have hmisplaced : Ensures r (fun _ => True) (fieldBindings.misplaced tag n) fun _ => True :=
      ensures_report _ _ _ _
    unfold fieldBindings
    dsimp only
    split
    · rename_i event children
      split
      · refine .element fun counted => ?_
        split
        · refine ((counts_steps names false (depth + 1) children).onto _).bind fun actions => ?_
          refine (ih.onto _).bind fun more => .pure ?_
          exact Nat.add_le_add_right (Nat.le_add_left _ _) _
        · exact ih.spare _
      · exact .after hmisplaced fun _ => ih
    · split
      · exact .after hmisplaced fun _ => ih
      · exact ih

/-- A tree weighs what has to be counted for it. -/
abbrev weight (n : Node) : Nat := Node.costAll [n]

/-- A leaf with events. -/
theorem weight_withBindings (t : DslTag) (bindings : List EventBinding) :
    weight { nodeOf tag t with bindings } ≤ 1 + EventBinding.sizeAll bindings :=
  Node.costAll_singleton_le _

/-- A field costs itself and its events. -/
theorem counts_inputField (t : DslTag) (depth : Nat) (children : List RawNode) :
    CountsSome r 1 (inputField tag t names depth children) weight := by
  refine .after (ensures_required tag "var") fun var => ?_
  refine .after (.lift (ensures_checkName admits_all tag.span var)) fun found => ?_
  have hend : CountsSome r 1 (do
      return { nodeOf tag t with bindings := ← fieldBindings tag names (depth + 1) children })
      weight :=
    (CountsSome.lift ((counts_fieldBindings tag names (depth + 1) children).onto 1)).bind
      fun bindings => .pure (weight_withBindings tag t bindings)
  split
  · refine .after (.lift (ensures_isReadOnly var)) fun readOnly => ?_
    split
    · exact .after (.lift (ensures_report _ _ _ fun _ => True)) fun _ => hend
    · exact hend
  · exact hend

theorem counts_lifecycle (e : EventTag) (depth : Nat) (children : List RawNode) :
    CountsSome r 1 (lifecycle tag e names depth children) weight := by
  refine (CountsSome.lift ((counts_steps names false (depth + 1) children).onto 1)).bind
    fun actions => ?_
  have hend {b : EventBinding} (hb : b.actions = actions) :
      CountsSome r (1 + Action.sizeAll actions)
        (pure { nodeOf tag (.event e) with bindings := [b] })
        weight := .pure (hb ▸ weight_withBindings tag _ [b])
  split
  · refine .after (ensures_required tag "interval") fun raw => ?_
    refine .after (.lift (ensures_read)) fun rules => ?_
    dsimp only
    split
    · exact hend rfl
    · exact .reject _ _ _
  · exact hend rfl

/-- What has been counted for a leaf is for the node, and its events count by themselves. Without
events the one element is all that is needed. -/
theorem counts_leaf (t : DslTag) (depth : Nat) (children : List RawNode) :
    CountsSome r 1 (leaf tag t names depth children) weight := by
  have hplain (ht : (Template.NodeTag.dsl t).handlesEvents = false) :
      CountsSome r 1 (leaf tag t names depth children) weight := by
    refine .of_gives (ensures_leaf admits_all tag names t depth children) fun d n hn => ?_
    obtain ⟨bindings, rfl⟩ := bare_leaf tag names t depth children d n hn
    have hformed := (gives_leaf tag names (List.mem_singleton_self _) t depth children d _ hn).1
    have hnone : bindings = [] := by
      by_contra hb
      exact Bool.noConfusion (ht.symm.trans (hformed.handles hb))
    exact hnone ▸ weight_withBindings tag t bindings
  cases t with
  | textInput | checkbox => exact counts_inputField tag names _ depth children
  | event e =>
    cases e with
    | onMount | onInterval => exact counts_lifecycle tag names _ depth children
    | onClick | onChange => exact hplain rfl
  | button => exact .failure
  | var | showVar | resident | action | caseBranch | defaultBranch | ifChain | ifBranch
    | elseIfBranch
  | elseBranch | switch | forEach => exact hplain rfl

end Elements

/-! ## Trees -/

section Trees

/-- All that siblings come to, branches of a chain and others. -/
def weightOf (found : List Node × List Node) : Nat := Node.costAll found.1 + Node.costAll found.2

theorem costAll_toList (o : Option Node) : Node.costAll o.toList = o.elim 0 weight := by
  cases o with
  | none => rfl
  | some n => rfl

/-- Nothing is counted for text, nor for a chain but what is in it. -/
theorem costAll_cons_of_not_isElement {n : Node} (hn : n.isElement = false) (hb : n.bindings = [])
    (ns : List Node) : Node.costAll (n :: ns) = Node.costAll n.children + Node.costAll ns := by
  have hcost : n.cost = 0 := by
    unfold Node.cost Node.steps
    rw [hn, hb]
    rfl
  rw [Node.costAll_cons, hcost, Nat.zero_add]

/-- A node without events above what siblings come to. -/
theorem weight_above {n : Node} {found : List Node × List Node} (hb : n.bindings = [])
    (hc : n.children = found.2) : weight n ≤ 1 + weightOf found := by
  have hweight := n.costAll_singleton_le
  unfold Node.steps at hweight
  rw [hb, hc] at hweight
  exact hweight.trans (Nat.add_le_add_left (Nat.le_add_left _ _) 1)

mutual

/-- What some markup is made into costs no more than has been counted for it; the induction is on
the markup. -/
theorem counts_siblings (skipped : Skipped) (inChain : Bool) (p : Place) : (ns : List RawNode) →
    Counts r 0 (siblings skipped inChain p ns) weightOf
  | [] => .pure (Nat.le_refl _)
  | .text content span :: rest => by
    unfold siblings
    split
    · exact counts_siblings skipped true p rest
    · refine (counts_siblings skipped false p rest).bind fun found => .pure ?_
      unfold weightOf
      rw [costAll_cons_of_not_isElement rfl rfl]
      exact Nat.add_le_add (Nat.zero_le _) (Nat.zero_add _).le
  | .element tag children :: rest => by
    have hbranch := fun t => counts_branch t p (.element tag children)
    have hrest := fun chain => counts_siblings skipped chain p rest
    unfold siblings
    split
    · exact hrest inChain
    · split
      · refine Counts.bind (hbranch .elseIfBranch) fun b => ?_
        refine ((hrest true).onto _).bind fun found => .pure ?_
        unfold weightOf
        rw [Node.costAll_append, costAll_toList, Nat.add_assoc]
      · split
        · refine Counts.bind (hbranch .elseBranch) fun b => ?_
          refine ((hrest false).onto _).bind fun found => .pure ?_
          unfold weightOf
          rw [costAll_toList]
          exact Nat.add_le_add_left (Nat.le_add_left _ _) _
        · split
          · refine Counts.bind (hbranch .ifBranch) fun b => ?_
            refine ((hrest true).onto _).bind fun found => .pure ?_
            unfold weightOf
            rw [costAll_cons_of_not_isElement rfl rfl, Node.costAll_append, costAll_toList,
              Nat.add_assoc]
            exact (Nat.zero_add _).le
          · refine Counts.bind (counts_element p (.element tag children)) fun n => ?_
            refine ((hrest false).onto _).bind fun found => .pure ?_
            unfold weightOf
            rw [Node.costAll_append, costAll_toList]
            exact (Nat.zero_add _).le.trans (Nat.add_le_add_left (Nat.le_add_left _ _) _)

theorem counts_branch (t : DslTag) (p : Place) :
    (n : RawNode) → CountsSome r 0 (branch t p n) weight
  | .text .. => .failure
  | .element tag children => by
    unfold branch
    have hend : CountsSome r 1 (do
        let (_, nodes) ← siblings [] false (p.below 1) children
        return { nodeOf tag t with children := nodes }) weight := by
      exact (CountsSome.lift ((counts_siblings [] false (p.below 1) children).onto 1)).bind
        fun found => .pure (weight_above rfl rfl)
    refine .element fun counted => .givenUp fun _ => ?_
    dsimp only
    split
    · exact .after (.lift (ensures_checkCondition admits_all tag p.names t)) fun _ => hend
    · exact hend

theorem counts_cases (p : Place) : (ns : List RawNode) → Counts r 0 (cases p ns) Node.costAll
  | [] => .pure (Nat.le_refl _)
  | n :: rest => by
    unfold cases
    refine Counts.bind (counts_caseOf p n) fun c => ?_
    refine ((counts_cases p rest).onto _).bind fun more => .pure ?_
    rw [Node.costAll_append, costAll_toList]

theorem counts_caseOf (p : Place) : (n : RawNode) → CountsSome r 0 (caseOf p n) weight
  | .text content span => by
    unfold caseOf
    dsimp only
    split
    · exact .after (.lift (ensures_report _ _ _ fun _ => True)) fun _ => .failure
    · exact .failure
  | .element tag children => by
    have hend (t : DslTag) : CountsSome r 1 (do
        let (_, nodes) ← siblings [] false (p.below 1) children
        return { nodeOf tag t with children := nodes }) weight := by
      exact (CountsSome.lift ((counts_siblings [] false (p.below 1) children).onto 1)).bind
        fun found => .pure (weight_above rfl rfl)
    unfold caseOf
    split
    · refine .element fun counted => .givenUp fun _ => ?_
      exact .after (.lift (ensures_checkCaseValue tag)) fun _ => hend _
    · split
      · exact .element fun counted => .givenUp fun _ => hend _
      · exact .after (.lift (ensures_report _ _ _ fun _ => True)) fun _ => .failure

/-- An element is counted, with all that is made of what it holds. -/
theorem counts_element (p : Place) : (n : RawNode) → CountsSome r 0 (element p n) weight
  | .text .. => .failure
  | .element tag children => by
    have hsiblings := fun skipped p => counts_siblings skipped false p children
    unfold element
    refine .element fun counted => .givenUp fun _ => ?_
    dsimp only
    split
    · refine .after (.lift (ensures_safeAttributes tag tag.attrs)) fun _ => ?_
      exact (CountsSome.lift ((hsiblings [] (p.below 1)).onto _)).bind fun found =>
        .pure (weight_above rfl rfl)
    · split
      · exact .reject _ _ _
      · refine .after (.lift (ensures_checkSwitch admits_all tag p.names)) fun _ => ?_
        exact (CountsSome.lift ((counts_cases (p.below 1) children).onto _)).bind fun nodes =>
          .pure (Node.costAll_singleton_le _)
      · refine .after (ensures_required tag "var") fun path => ?_
        refine .after (.lift (ensures_checkPath admits_all tag.span p.names path)) fun _ => ?_
        refine .after (ensures_loopBindings) fun bound => ?_
        exact (CountsSome.lift ((hsiblings [] ⟨p.names ++ bound, p.depth + 1⟩).onto _)).bind
          fun found => .pure (weight_above rfl rfl)
      · refine (CountsSome.lift ((counts_eventBindings p.names .onClick .click (p.depth + 1)
          children).onto _)).bind fun bindings => ?_
        refine (CountsSome.lift ((hsiblings [EventTag.onClick.name] (p.below 1)).onto _)).bind
          fun found => .pure ?_
        exact (Node.costAll_singleton_le _).trans (Nat.add_le_add_left (Nat.le_add_left _ _) _)
      · exact counts_leaf tag p.names _ p.depth children

end

end Trees

/-! ## Compilations -/

/-- To mark islands takes no elements. -/
theorem sum_cost_of_marked {ns ms : List Node} (h : List.Forall₂ Island.Survey.Marked ns ms) :
    (ms.map Node.cost).sum = (ns.map Node.cost).sum := by
  induction h with
  | nil => rfl
  | @cons n m ns ms hmarked _ ih =>
    have hcost : m.cost = n.cost := by
      unfold Node.cost Node.steps
      rw [hmarked.isElement, hmarked.bindings]
    rw [List.map_cons, List.map_cons, List.sum_cons, List.sum_cons, ih, hcost]

/-- A compilation without errors has no more elements and steps, those in sequences among them, than
the limit on elements says, and no elements of HTML but the known ones. -/
theorem bounded_of_compile {c : Config} {src : String} (h : (compile c src).errors = []) :
    ((compile c src).root.walk.filter (·.isElement)).length +
        ((compile c src).root.walk.map Node.steps).sum ≤ c.compiler.maxNodes ∧
      ∀ n ∈ (compile c src).root.walk, ∀ name, n.tag = .html name → name ∈ htmlTags := by
  refine ⟨?_, fun n hn name htag => ?_⟩
  · have ht : (compile c src).template? = some ⟨_, (compile c src).root, _, _⟩ :=
      if_pos (List.isEmpty_iff.2 h)
    obtain ⟨raw, -, hraw⟩ := exists_raw ht
    obtain ⟨found, draft, hrun, herrors, -, hextract⟩ := exists_draft hraw
    have hcounts := counts_siblings (r := rules c raw) [] false ⟨[], 1⟩ raw {}
    obtain ⟨hgrows, -⟩ :=
      ensures_siblings (r := rules c raw) admits_all [] false ⟨[], 1⟩ raw ({} : Draft)
    rw [hrun] at hcounts hgrows
    have hlimited : draft.elements ≤ c.compiler.maxNodes := by
      by_contra hmore
      refine hgrows.limited ?_ (.inl (Nat.lt_of_not_le hmore)) herrors
      exact fun hover => (hover.elim (Nat.not_lt_zero _) Bool.noConfusion).elim
    let survey : Island.Survey :=
      ⟨templateId src, Template.reactive (.fragment found.2) (compile c src).decls⟩
    have hroot : (compile c src).root = (survey.mark [] (.fragment found.2)).1 :=
      congrArg Prod.fst hextract
    rw [← Node.sum_cost, hroot, sum_cost_of_marked (survey.marked_walk [] _)]
    calc ((Node.fragment found.2).walk.map Node.cost).sum
      _ = Node.costAll found.2 := by
        rw [← Node.walkAll_singleton]
        exact costAll_cons_of_not_isElement rfl rfl []
      _ ≤ weightOf found := Nat.le_add_left _ _
      _ ≤ draft.elements := (Nat.zero_add _).ge.trans hcounts
      _ ≤ c.compiler.maxNodes := hlimited
  · obtain ⟨hhtml, -⟩ := safe_of_compile c src n hn name htag
    exact List.contains_iff_mem.1 hhtml

/-- A button that adds one and waits, and a paragraph. -/
def pacedMarkup : String :=
  "<Var name=\"n\" type=\"number\"/><Button>more<OnClick><Sequence><Increment var=\"n\"/>" ++
    "<Delay ms=\"5\"/></Sequence></OnClick></Button><p>less</p>"

/-- Under a limit of seven, three elements with three steps between them compile, and the one
element of HTML among them is a known one. -/
theorem bounded_paced :
    let paced := compile { compiler := { maxNodes := 7 } } pacedMarkup
    paced.errors = [] ∧ (paced.root.walk.filter (·.isElement)).length = 3 ∧
      (paced.root.walk.map Node.steps).sum = 3 ∧
      (paced.root.walk.filter (·.isElement)).length + (paced.root.walk.map Node.steps).sum ≤ 7 ∧
      (∃ n ∈ paced.root.walk, n.tag = .html "p") ∧ "p" ∈ htmlTags := by
  intro paced
  have hcounts : (paced.errors.isEmpty = true ∧
      (paced.root.walk.filter (·.isElement)).length = 3 ∧
      (paced.root.walk.map Node.steps).sum = 3) ∧ ∃ n ∈ paced.root.walk, n.tag = .html "p" := by
    decide +kernel
  obtain ⟨⟨hempty, helements, hsteps⟩, n, hn, htag⟩ := hcounts
  have h : paced.errors = [] := List.isEmpty_iff.1 hempty
  obtain ⟨hbound, htags⟩ := bounded_of_compile h
  exact ⟨h, helements, hsteps, hbound, ⟨n, hn, htag⟩, htags n hn "p" htag⟩

end Compile

end Archipelago
