import Archipelago.Proofs.Compile.Attributes

/-!
# Branches stand in chains

A branch of an `If` is kept with its chain or not at all, be there errors or not. So what a branch
looks at is looked at by a chain.
-/

namespace Archipelago

namespace Template.Node

/-- Only a chain has branches. -/
def Seats (n : Node) : Prop := n.isDsl .ifChain = false → ∀ c ∈ n.children, c.isBranch = false

/-- In these nodes and below them only chains have branches. -/
def SeatsAll (ns : List Node) : Prop := ∀ n ∈ walkAll ns, n.Seats

/-- None of these nodes is a branch, and branches below them are in chains. -/
structure Seated (ns : List Node) : Prop where
  plain : ∀ n ∈ ns, n.isBranch = false
  below : SeatsAll ns

/-- How a node stands to its children and to its events. -/
structure Settled (n : Node) : Prop where
  /-- A chain has branches and nothing else, and no other node has any. -/
  seats : ∀ c ∈ n.children, c.isBranch = n.isDsl .ifChain
  /-- What shows nothing waits neither for a click nor for a change. -/
  events : n.isDsl (.event .onMount) = true ∨ n.isDsl (.event .onInterval) = true →
    ∀ b ∈ n.bindings, b.kind = .mount ∨ b.kind = .interval

/-- Siblings that are all branches, or none of which is one. -/
structure Siblings (inChain : Bool) (ns : List Node) : Prop where
  branch : ∀ n ∈ ns, n.isBranch = inChain
  settled : ∀ n ∈ walkAll ns, n.Settled

namespace Siblings

variable {inChain : Bool} {n : Node} {ns ms : List Node}

theorem nil (inChain : Bool) : Siblings inChain [] := ⟨List.forall_mem_nil _, List.forall_mem_nil _⟩

theorem append (hn : Siblings inChain ns) (hm : Siblings inChain ms) :
    Siblings inChain (ns ++ ms) where
  branch := List.forall_mem_append.2 ⟨hn.branch, hm.branch⟩
  settled := by
    rw [walkAll_append]
    exact List.forall_mem_append.2 ⟨hn.settled, hm.settled⟩

theorem toList {o : Option Node} (h : ∀ n, o = some n → Siblings inChain [n]) :
    Siblings inChain o.toList := by
  cases o with
  | none => exact nil inChain
  | some n => exact h n rfl

/-- A node above siblings. -/
theorem node (hn : n.isBranch = inChain) (hc : Siblings (n.isDsl .ifChain) n.children)
    (hevents : n.isDsl (.event .onMount) = true ∨ n.isDsl (.event .onInterval) = true →
      ∀ b ∈ n.bindings, b.kind = .mount ∨ b.kind = .interval) : Siblings inChain [n] where
  branch _ hm := List.mem_singleton.1 hm ▸ hn
  settled := by
    rw [walkAll_singleton]
    exact forall_walk.2 ⟨⟨hc.branch, hevents⟩, hc.settled⟩

/-- A node without events above siblings. -/
theorem idle (hn : n.isBranch = inChain) (hc : Siblings (n.isDsl .ifChain) n.children)
    (hb : n.bindings = []) : Siblings inChain [n] :=
  node hn hc fun _ => by
    rw [hb]
    exact List.forall_mem_nil _

theorem seated (h : Siblings false ns) : Seated ns where
  plain := h.branch
  below n hn hchain c hc := ((h.settled n hn).seats c hc).trans hchain

end Siblings

end Template.Node

namespace Compile

open Markup (RawNode)
open Template (Node)
open Template.Node (Siblings Seated)

variable {r : Rules}

/-- A mount or an interval. -/
theorem kind_of_lifecycle (tag : Markup.OpenTag) (e : EventTag) (names : List String) (depth : Nat)
    (children : List RawNode) : Gives r (lifecycle tag e names depth children) fun n =>
      ∀ b ∈ n.bindings, b.kind = .mount ∨ b.kind = .interval := by
  refine .bind fun actions => ?_
  split
  · refine .bind fun raw => .bind fun rules => ?_
    dsimp only
    split
    · exact .pure (List.forall_mem_singleton.2 (.inr rfl))
    · exact .reject _ _ _
  · exact .pure (List.forall_mem_singleton.2 (.inl rfl))

/-- A branch on its own is not kept. -/
theorem siblings_leaf (tag : Markup.OpenTag) (t : DslTag) (names : List String) (depth : Nat)
    (children : List RawNode) :
    Gives r (leaf tag t names depth children) fun n => Siblings false [n] := by
  have hidle (ht : (nodeOf tag t).isBranch = false)
      (hshown : (nodeOf tag t).isDsl (.event .onMount) = false ∧
        (nodeOf tag t).isDsl (.event .onInterval) = false) :
      Gives r (leaf tag t names depth children) fun n => Siblings false [n] := by
    intro d n hn
    obtain ⟨bindings, rfl⟩ := bare_leaf tag names t depth children d n hn
    refine .node ht (.nil _) fun h => absurd h ?_
    exact not_or_intro (Bool.eq_false_iff.1 hshown.1) (Bool.eq_false_iff.1 hshown.2)
  have hlifecycle (e : EventTag) : Gives r (lifecycle tag e names depth children) fun n =>
      Siblings false [n] := by
    intro d n hn
    have hkinds := kind_of_lifecycle tag e names depth children d n hn
    obtain ⟨bindings, rfl⟩ := bare_lifecycle tag names e depth children d n hn
    exact .node rfl (.nil _) fun _ => hkinds
  cases t with
  | ifBranch | elseIfBranch | elseBranch => exact .reject _ _ _
  | event e =>
    cases e with
    | onMount | onInterval => exact hlifecycle _
    | onClick | onChange => exact .reject _ _ _
  | _ => exact hidle rfl ⟨rfl, rfl⟩

mutual

/-- What goes on with a chain comes apart from what does not. -/
theorem siblings_siblings (skipped : Skipped) (inChain : Bool) (p : Place) : (ns : List RawNode) →
    Yields r (siblings skipped inChain p ns) fun found =>
      Siblings true found.1 ∧ Siblings false found.2
  | [] => .pure ⟨.nil _, .nil _⟩
  | .text content span :: rest => by
    unfold siblings
    split
    · exact siblings_siblings skipped true p rest
    · refine (siblings_siblings skipped false p rest).seq fun found hfound => .pure ⟨.nil _, ?_⟩
      exact (Siblings.idle (n := { tag := .text content, span }) rfl (.nil _) rfl).append hfound.2
  | .element tag children :: rest => by
    have hbranch := fun t ht => (siblings_branch t ht p (.element tag children)).run
    have hchain (bs : List Node) (h : Siblings true bs) : Siblings false
        [{ tag := .dsl .ifChain, children := bs, span := tag.span }] := .idle rfl h rfl
    have hrest := fun chain => siblings_siblings skipped chain p rest
    unfold siblings
    split
    · exact hrest inChain
    · split
      · exact (hbranch .elseIfBranch (.inr (.inl rfl))).seq fun b hb =>
          (hrest true).seq fun found hfound =>
            .pure ⟨(Siblings.toList hb).append hfound.1, hfound.2⟩
      · split
        · exact (hbranch .elseBranch (.inr (.inr rfl))).seq fun b hb =>
            (hrest false).seq fun found hfound => .pure ⟨.toList hb, hfound.2⟩
        · split
          · exact (hbranch .ifBranch (.inl rfl)).seq fun b hb =>
              (hrest true).seq fun found hfound =>
              .pure ⟨.nil _, (hchain _ ((Siblings.toList hb).append hfound.1)).append hfound.2⟩
          · exact (siblings_element p (.element tag children)).run.seq fun n hn =>
              (hrest false).seq fun found hfound =>
                .pure ⟨.nil _, (Siblings.toList hn).append hfound.2⟩

theorem siblings_branch (t : DslTag) (ht : t = .ifBranch ∨ t = .elseIfBranch ∨ t = .elseBranch)
    (p : Place) : (n : RawNode) → Gives r (branch t p n) fun b => Siblings true [b]
  | .text .. => .failure
  | .element tag children => by
    have hend : Gives r (do
        let (_, nodes) ← siblings [] false (p.below 1) children
        return { nodeOf tag t with children := nodes }) fun b => Siblings true [b] := by
      refine (Gives.lift (siblings_siblings [] false (p.below 1) children)).seq
        fun found hfound => ?_
      rcases ht with rfl | rfl | rfl
      all_goals exact .pure (.idle rfl hfound.2 rfl)
    unfold branch
    refine .bind fun counted => .givenUp fun _ => ?_
    dsimp only
    split
    · exact .bind fun _ => hend
    · exact hend

theorem siblings_cases (p : Place) : (ns : List RawNode) → Yields r (cases p ns) (Siblings false)
  | [] => .pure (.nil _)
  | n :: rest => by
    unfold cases
    exact (siblings_caseOf p n).run.seq fun c hc => (siblings_cases p rest).seq fun more hmore =>
      .pure ((Siblings.toList hc).append hmore)

theorem siblings_caseOf (p : Place) :
    (n : RawNode) → Gives r (caseOf p n) fun c => Siblings false [c]
  | .text content span => by
    unfold caseOf
    dsimp only
    split
    · exact .bind fun _ => .failure
    · exact .failure
  | .element tag children => by
    have hend (t : DslTag) (hbranch : (nodeOf tag t).isBranch = false)
        (hchain : (nodeOf tag t).isDsl .ifChain = false) : Gives r (do
        let (_, nodes) ← siblings [] false (p.below 1) children
        return { nodeOf tag t with children := nodes }) fun c => Siblings false [c] :=
      (Gives.lift (siblings_siblings [] false (p.below 1) children)).seq fun found hfound =>
        .pure (.idle hbranch (hchain ▸ hfound.2) rfl)
    unfold caseOf
    split
    · exact .bind fun counted => .givenUp fun _ => .bind fun _ => hend .caseBranch rfl rfl
    · split
      · exact .bind fun counted => .givenUp fun _ => hend .defaultBranch rfl rfl
      · exact .bind fun _ => .failure

theorem siblings_element (p : Place) : (n : RawNode) →
    Gives r (element p n) fun m => Siblings false [m]
  | .text .. => .failure
  | .element tag children => by
    have hsiblings := fun skipped p => Gives.lift (siblings_siblings skipped false p children)
    unfold element
    refine .bind fun counted => .givenUp fun _ => ?_
    dsimp only
    split
    · exact .bind fun attributes => (hsiblings [] (p.below 1)).seq fun found hfound =>
        .pure (.idle rfl hfound.2 rfl)
    · split
      · exact .reject _ _ _
      · exact .bind fun _ => (Gives.lift (siblings_cases (p.below 1) children)).seq
          fun nodes hnodes => .pure (.idle rfl hnodes rfl)
      · exact .bind fun path => .bind fun _ => .bind fun bound =>
          (hsiblings [] ⟨p.names ++ bound, p.depth + 1⟩).seq fun found hfound =>
            .pure (.idle rfl hfound.2 rfl)
      · exact .bind fun bindings => (hsiblings [EventTag.onClick.name] (p.below 1)).seq
          fun found hfound => .pure (.node rfl hfound.2 fun h => h.elim nofun nofun)
      · exact siblings_leaf tag _ p.names p.depth children

end

/-- Be there errors or not, no branch stands at the top, and all nodes are settled. -/
theorem Makes.siblings {c : Config} {src : String} {nodes : List Node} (h : Makes c src nodes) :
    Siblings false nodes := by
  cases h with
  | rejected => exact .nil _
  | @read raw hraw => exact (siblings_siblings (r := rules c raw) [] false ⟨[], 1⟩ raw {}).2

theorem Makes.seated {c : Config} {src : String} {nodes : List Node} (h : Makes c src nodes) :
    Seated nodes := h.siblings.seated

end Compile

end Archipelago
