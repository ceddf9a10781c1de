import Archipelago.Proofs.Compile.Elements

/-!
# Checks of trees

A compilation of a tree that repeats no attribute gives, if it ends clean, checked nodes only. The
induction is over the tree as it was read, with one statement for each function that goes down it.
-/

namespace Archipelago.Compile

open Markup (OpenTag RawNode)
open Template (Node)

/-- A branch of an `If` chain is checked with its condition, unless it is the last resort. -/
structure CheckedBranch (sc : Scoping) (names : List String) (b : Node) : Prop where
  node : sc.Checked names b
  branch : b.isBranch = true
  condition : b.isDsl .elseBranch = false → sc.CheckedCondition names b

variable {r : Rules} {known : String → Prop}

/-- A node that binds no names. -/
theorem checked_of_children {sc : Scoping} {names : List String} {n : Node}
    (hloop : n.loopNames = []) (ha : sc.CheckedAttributes names n)
    (hb : ∀ b ∈ n.bindings, sc.CheckedSteps names b.actions)
    (hc : sc.CheckedAll names n.children) : sc.Checked names n := by
  rw [Scoping.checked_iff, hloop, List.append_nil]
  exact ⟨⟨ha, hb⟩, hc⟩

theorem checkedAll_append {sc : Scoping} {names : List String} {ns ms : List Node}
    (hn : sc.CheckedAll names ns) (hm : sc.CheckedAll names ms) :
    sc.CheckedAll names (ns ++ ms) := by
  rw [Scoping.checkedAll_iff] at *
  exact fun n h => (List.mem_append.1 h).elim (hn n) (hm n)

theorem checkedAll_toList {sc : Scoping} {names : List String} {o : Option Node}
    (h : ∀ n, o = some n → sc.Checked names n) : sc.CheckedAll names o.toList :=
  (Scoping.checkedAll_iff _ _).2 fun n hn => h n (Option.mem_toList.1 hn)

/-- The names of a loop are the ones that its node binds, and are identifiers. -/
theorem ensures_loopBindings {tag : OpenTag} :
    EnsuresSome r known (loopBindings tag) fun bound => tag.Distinct →
      bound = (nodeOf tag .forEach).loopNames ∧ ∀ name ∈ bound, isIdentifier name = true := by
  have hbound (hd : tag.Distinct) : (nodeOf tag .forEach).loopNames =
      [(tag.attr? "item").getD "item", (tag.attr? "index").getD "index"] := by
    unfold Node.loopNames
    rw [attr?_nodeOf hd, attr?_nodeOf hd]
    rfl
  unfold loopBindings
  dsimp only
  split
  · exact ensures_reject _ _ _ _
  · rename_i hfind
    refine .pure fun hd => ⟨(hbound hd).symm, fun name hn => ?_⟩
    simpa using List.find?_eq_none.1 hfind name hn

theorem ensures_checkCaseValue (tag : OpenTag) :
    Ensures r known (checkCaseValue tag) fun _ => True :=
  Ensures.andThen (ensures_required tag "value") fun _ => .pure True.intro

/-- What siblings come to: branches that go on with a chain, and all the others. -/
def CheckedSiblings (sc : Scoping) (names : List String) (found : List Node × List Node) : Prop :=
  (∀ b ∈ found.1, CheckedBranch sc names b) ∧ sc.CheckedAll names found.2

mutual

theorem ensures_siblings (h : Admits r known) (skipped : Skipped) (inChain : Bool) (p : Place) :
    (ns : List RawNode) → Ensures r known (siblings skipped inChain p ns) fun found =>
      RawNode.DistinctAll ns → CheckedSiblings (r.scoping known) p.names found
  | [] => .pure fun _ => ⟨List.forall_mem_nil _, True.intro⟩
  | .text content span :: rest => by
    unfold siblings
    split
    · exact (ensures_siblings h skipped true p rest).mono fun _ hfound hd => hfound hd.2
    · refine (ensures_siblings h skipped false p rest).bind fun found => .pure fun hfound hd => ?_
      refine ⟨List.forall_mem_nil _, ?_, (hfound hd.2).2⟩
      exact checked_of_children rfl True.intro (List.forall_mem_nil _) True.intro
  | .element tag children :: rest => by
    have hbranch := fun t ht => ensures_branch (t := t) h ht p (.element tag children)
    have hrest := fun chain => ensures_siblings h skipped chain p rest
    unfold siblings
    split
    · exact (hrest inChain).mono fun _ hfound hd => hfound hd.2
    · split
      · refine Ensures.bind (hbranch .elseIfBranch (.inr (.inl rfl))) fun b => ?_
        refine (hrest true).bind fun found => .pure ?_
        intro hfound hb hd
        refine ⟨fun c hc => ?_, (hfound hd.2).2⟩
        exact (List.mem_append.1 hc).elim (fun hc => hb c (Option.mem_toList.1 hc) hd.1)
          ((hfound hd.2).1 c)
      · split
        · refine Ensures.bind (hbranch .elseBranch (.inr (.inr rfl))) fun b => ?_
          refine (hrest false).bind fun found => .pure ?_
          intro hfound hb hd
          exact ⟨fun c hc => hb c (Option.mem_toList.1 hc) hd.1, (hfound hd.2).2⟩
        · split
          · refine Ensures.bind (hbranch .ifBranch (.inl rfl)) fun b => ?_
            refine (hrest true).bind fun found => .pure ?_
            intro hfound hb hd
            have hall : ∀ c ∈ b.toList ++ found.1, CheckedBranch (r.scoping known) p.names c :=
              fun c hc => (List.mem_append.1 hc).elim
                (fun hc => hb c (Option.mem_toList.1 hc) hd.1) ((hfound hd.2).1 c)
            refine ⟨List.forall_mem_nil _, ?_, (hfound hd.2).2⟩
            have hnodes := (Scoping.checkedAll_iff _ _).2 fun c hc => (hall c hc).node
            exact checked_of_children rfl (fun c hc => ⟨(hall c hc).branch, (hall c hc).condition⟩)
              (List.forall_mem_nil _) hnodes
          · refine Ensures.bind (ensures_element h p (.element tag children)) fun n => ?_
            refine (hrest false).bind fun found => .pure fun hfound hn hd => ?_
            exact ⟨List.forall_mem_nil _,
              checkedAll_append (checkedAll_toList fun m hm => hn m hm hd.1) (hfound hd.2).2⟩

theorem ensures_branch (h : Admits r known) {t : DslTag}
    (ht : t = .ifBranch ∨ t = .elseIfBranch ∨ t = .elseBranch) (p : Place) :
    (n : RawNode) → EnsuresSome r known (branch t p n) fun b =>
      n.Distinct → CheckedBranch (r.scoping known) p.names b
  | .text .. => .failure
  | .element tag children => by
    unfold branch
    have hend : EnsuresSome r known (do
        let (_, nodes) ← siblings [] false (p.below 1) children
        return { nodeOf tag t with children := nodes }) fun b =>
          (tag.Distinct → (nodeOf tag t).isDsl .elseBranch = false →
            (r.scoping known).CheckedCondition p.names (nodeOf tag t)) →
          (RawNode.element tag children).Distinct → CheckedBranch (r.scoping known) p.names b := by
      refine (EnsuresSome.lift (ensures_siblings h [] false (p.below 1) children)).bind
        fun found => .pure fun hfound hcondition hd => ⟨?_, ?_, hcondition hd.1⟩
      · rcases ht with rfl | rfl | rfl <;>
          exact checked_of_children rfl True.intro (List.forall_mem_nil _) (hfound hd.2).2
      · rcases ht with rfl | rfl | rfl <;> rfl
    refine (EnsuresSome.lift (ensures_countElement tag.span p.depth)).andThen fun counted =>
      EnsuresSome.givenUp fun _ => ?_
    dsimp only
    split
    · exact (EnsuresSome.lift (ensures_checkCondition h tag p.names t)).bind fun _ =>
        hend.mono fun _ hb hcondition => hb fun hd _ => hcondition hd
    · rename_i hlast
      obtain rfl := Classical.not_not.1 hlast
      exact hend.mono fun _ hb => hb fun _ helse => by cases helse

theorem ensures_cases (h : Admits r known) (p : Place) :
    (ns : List RawNode) → Ensures r known (cases p ns) fun nodes =>
      RawNode.DistinctAll ns → (r.scoping known).CheckedAll p.names nodes
  | [] => .pure fun _ => True.intro
  | n :: rest => by
    unfold cases
    refine Ensures.bind (ensures_caseOf h p n) fun c => ?_
    exact (ensures_cases h p rest).bind fun more => .pure fun hmore hc hd =>
      checkedAll_append (checkedAll_toList fun m hm => hc m hm hd.1) (hmore hd.2)

theorem ensures_caseOf (h : Admits r known) (p : Place) :
    (n : RawNode) → EnsuresSome r known (caseOf p n) fun c =>
      n.Distinct → (r.scoping known).Checked p.names c
  | .text content span => by
    unfold caseOf
    dsimp only
    split
    · exact (EnsuresSome.lift (ensures_report _ _ _ fun _ => True)).andThen fun _ => .failure
    · exact .failure
  | .element tag children => by
    have hnode : ∀ t : DslTag, (t = .caseBranch ∨ t = .defaultBranch) →
        EnsuresSome r known (do
          let (_, nodes) ← siblings [] false (p.below 1) children
          return { nodeOf tag t with children := nodes }) fun c =>
            (RawNode.element tag children).Distinct → (r.scoping known).Checked p.names c := by
      intro t ht
      refine (EnsuresSome.lift (ensures_siblings h [] false (p.below 1) children)).bind
        fun found => .pure fun hfound hd => ?_
      rcases ht with rfl | rfl <;>
        exact checked_of_children rfl True.intro (List.forall_mem_nil _) (hfound hd.2).2
    have hcount : EnsuresSome r known (liftM (countElement tag.span p.depth)) fun _ => True :=
      .lift (ensures_countElement tag.span p.depth)
    unfold caseOf
    split
    · refine hcount.andThen fun counted => EnsuresSome.givenUp fun _ => ?_
      exact (EnsuresSome.lift (ensures_checkCaseValue tag)).andThen fun _ =>
        hnode .caseBranch (.inl rfl)
    · split
      · exact hcount.andThen fun counted => EnsuresSome.givenUp fun _ =>
          hnode .defaultBranch (.inr rfl)
      · exact (EnsuresSome.lift (ensures_report _ _ _ fun _ => True)).andThen fun _ => .failure

theorem ensures_element (h : Admits r known) (p : Place) :
    (n : RawNode) → EnsuresSome r known (element p n) fun m =>
      n.Distinct → (r.scoping known).Checked p.names m
  | .text .. => .failure
  | .element tag children => by
    have hsiblings := fun skipped p =>
      EnsuresSome.lift (ensures_siblings h skipped false p children)
    unfold element
    refine (EnsuresSome.lift (ensures_countElement tag.span p.depth)).andThen fun counted =>
      EnsuresSome.givenUp fun _ => ?_
    dsimp only
    split
    · refine (EnsuresSome.lift (ensures_safeAttributes tag tag.attrs)).andThen fun attributes => ?_
      refine (hsiblings [] (p.below 1)).bind fun found => .pure fun hfound hd => ?_
      exact checked_of_children rfl True.intro (List.forall_mem_nil _) (hfound hd.2).2
    · split
      · exact ensures_reject _ _ _ _
      · refine (EnsuresSome.lift (ensures_checkSwitch h tag p.names)).bind fun _ => ?_
        refine (EnsuresSome.lift (ensures_cases h (p.below 1) children)).bind
          fun nodes => .pure fun hnodes hattrs hd => ?_
        exact checked_of_children rfl (hattrs hd.1) (List.forall_mem_nil _) (hnodes hd.2)
      · refine (ensures_required tag "var").bind fun path => ?_
        refine (EnsuresSome.lift (ensures_checkPath h tag.span p.names path)).bind fun _ => ?_
        refine ensures_loopBindings.bind fun bound => ?_
        refine (hsiblings [] ⟨p.names ++ bound, p.depth + 1⟩).bind fun found => .pure ?_
        rintro hfound hbound hpath hvar hd
        obtain ⟨rfl, hnames⟩ := hbound hd.1
        refine (Scoping.checked_iff _ _).2
          ⟨⟨⟨?_, hnames⟩, List.forall_mem_nil _⟩, (hfound hd.2).2⟩
        intro other ho
        have hattr := attr?_nodeOf hd.1 .forEach "var"
        exact Option.some.inj (hvar.symm.trans (hattr.symm.trans ho)) ▸ hpath
      · refine (EnsuresSome.lift (ensures_eventBindings h p.names .onClick .click (p.depth + 1)
          children)).bind fun bindings => ?_
        refine (hsiblings [EventTag.onClick.name] (p.below 1)).bind fun found => .pure ?_
        intro hfound hbindings hd
        exact checked_of_children rfl True.intro hbindings (hfound hd.2).2
      · exact (ensures_leaf h tag p.names _ p.depth children).mono fun _ hn hd => hn hd.1

end

end Archipelago.Compile
