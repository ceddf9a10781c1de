import Archipelago.Proofs.Compile.Extract

/-!
# Where attributes come from

The elements of a compiled tree are made from tags of the markup, in the order of the document. A
check looks at the first value that a tag has for a name, a node carries the last one. An element of
HTML carries safe values only.
-/

namespace Archipelago

namespace Markup

/-- The values that a tag has for a name, as they are written. -/
def OpenTag.values (tag : OpenTag) (name : String) : List String :=
  (tag.attrs.filter (·.name = name)).map (·.value)

/-- A check looks at the first of them. -/
theorem OpenTag.attr?_eq_head? (tag : OpenTag) (name : String) :
    tag.attr? name = (tag.values name).head? := by
  unfold attr? values
  rw [List.head?_map, List.head?_filter]

namespace RawNode

mutual

/-- The tags of a tree as they are written, parents first. -/
def tags : RawNode → List OpenTag
  | text .. => []
  | element tag children => tag :: tagsAll children

/-- The tags of a source, in order. -/
def tagsAll : List RawNode → List OpenTag
  | [] => []
  | n :: ns => tags n ++ tagsAll ns

end

end RawNode

end Markup

open Markup (OpenTag RawNode)
open Markup.RawNode (tags tagsAll)

namespace Template.Node

/-- Is the node one that a tag stands for? Neither text is nor a chain of branches as a whole. -/
def isElement (n : Node) : Bool :=
  match n.tag with
  | .html _ => true
  | .dsl t => t ≠ .ifChain
  | .fragment | .text _ => false

/-- May the node carry the attribute? -/
def admits (n : Node) (name value : String) : Bool :=
  match n.tag with
  | .html _ => (unsafeReason? name value).isNone
  | _ => true

/-- A node with the attributes of a tag that it may carry. -/
structure MadeFrom (n : Node) (tag : OpenTag) : Prop where
  span : n.span = tag.span
  name : n.tag.name = tag.name
  attributes : n.attributes =
    Dict.ofList ((tag.attrs.filter fun a => n.admits a.name a.value).map fun a => (a.name, a.value))

/-- A node carries the last value that it may. -/
theorem MadeFrom.attr?_eq {n : Node} {tag : OpenTag} (h : n.MadeFrom tag) (name : String) :
    n.attr? name = ((tag.values name).filter (n.admits name)).getLast? := by
  unfold attr? OpenTag.values
  rw [h.attributes, Dict.ofList, Dict.get?_merge, Dict.get?_nil, Option.or_none]
  congr 1
  rw [List.filter_map, List.filter_filter, List.filter_map, List.filter_filter, List.map_map]
  refine congrArg _ (List.filter_congr fun a _ => ?_)
  by_cases ha : a.name = name
  · simp [← ha]
  · simp [ha]

/-- A value that is the only one is carried if it may be. -/
theorem MadeFrom.attr?_of_single {n : Node} {tag : OpenTag} (h : n.MadeFrom tag) {name : String}
    (hsingle : (tag.values name).length ≤ 1) :
    n.attr? name = (tag.attr? name).filter (n.admits name) := by
  rw [h.attr?_eq, tag.attr?_eq_head?]
  generalize tag.values name = values at hsingle ⊢
  rcases values with _ | ⟨value, _ | ⟨other, rest⟩⟩
  · rfl
  · rw [List.filter_singleton, List.head?_cons, Option.filter_some]
    cases n.admits name value with
    | false => rfl
    | true => rfl
  · exact absurd hsingle (by simp)

/-- What is carried is what was looked at if the first value is also the last one. -/
theorem MadeFrom.attr?_eq_iff {n : Node} {tag : OpenTag} (h : n.MadeFrom tag) {name : String}
    (hall : ∀ value ∈ tag.values name, n.admits name value = true) :
    n.attr? name = tag.attr? name ↔ (tag.values name).head? = (tag.values name).getLast? := by
  rw [h.attr?_eq, tag.attr?_eq_head?, List.filter_eq_self.2 hall]
  exact eq_comm

/-- The elements among these nodes are made from some of the tags, one behind the other. -/
def AllMadeFrom (tags : List OpenTag) (ns : List Node) : Prop :=
  ∃ used, used.Sublist tags ∧ List.Forall₂ MadeFrom ((walkAll ns).filter isElement) used

namespace AllMadeFrom

variable {tags more : List OpenTag} {ns ms : List Node} {n : Node}

theorem nil (tags : List OpenTag) : AllMadeFrom tags [] := ⟨[], List.nil_sublist _, .nil⟩

theorem append (hn : AllMadeFrom tags ns) (hm : AllMadeFrom more ms) :
    AllMadeFrom (tags ++ more) (ns ++ ms) := by
  obtain ⟨used, hsub, hused⟩ := hn
  obtain ⟨used', hsub', hused'⟩ := hm
  refine ⟨used ++ used', hsub.append hsub', ?_⟩
  rw [walkAll_append, List.filter_append]
  exact List.rel_append hused hused'

theorem prepend (h : AllMadeFrom more ns) (tags : List OpenTag) : AllMadeFrom (tags ++ more) ns :=
  (nil tags).append h

theorem right (h : AllMadeFrom tags (ns ++ ms)) : AllMadeFrom tags ms := by
  obtain ⟨used, hsub, hused⟩ := h
  rw [walkAll_append, List.filter_append] at hused
  refine ⟨used.drop ((walkAll ns).filter isElement).length, (List.drop_sublist _ _).trans hsub, ?_⟩
  exact (List.forall₂_drop_append _ _ _ hused.flip).flip

/-- What is no element needs no tag. -/
theorem wrap (h : AllMadeFrom tags (n.children ++ ns)) (hn : n.isElement = false) :
    AllMadeFrom tags (n :: ns) := by
  obtain ⟨used, hsub, hused⟩ := h
  refine ⟨used, hsub, ?_⟩
  rw [walkAll_append] at hused
  rwa [walkAll_cons, List.filter_cons_of_neg (by rw [hn]; exact Bool.false_ne_true)]

/-- An element comes with its tag in front of those of what is below it. -/
theorem node {tag : OpenTag} (h : AllMadeFrom tags n.children) (hn : n.MadeFrom tag) :
    AllMadeFrom (tag :: tags) [n] := by
  obtain ⟨used, hsub, hused⟩ := h
  rw [AllMadeFrom, walkAll_cons, walkAll, List.append_nil, List.filter_cons]
  split
  · exact ⟨tag :: used, hsub.cons_cons tag, .cons hn hused⟩
  · exact ⟨used, hsub.cons tag, hused⟩

theorem toList {o : Option Node} (h : ∀ n, o = some n → AllMadeFrom tags [n]) :
    AllMadeFrom tags o.toList := by
  cases o with
  | none => exact nil tags
  | some n => exact h n rfl

end AllMadeFrom

end Template.Node

namespace Compile

open Template (Node)
open Template.Node (AllMadeFrom MadeFrom)

variable {r : Rules}

/-! ## Nodes -/

theorem name_of_ofName? {s : String} {t : DslTag} (h : DslTag.ofName? s = some t) : t.name = s :=
  of_decide_eq_true (List.find?_some (p := fun t : DslTag => t.name = s) h)

theorem madeFrom_nodeOf {tag : OpenTag} {t : DslTag} (h : tag.name = t.name) (children : List Node)
    (bindings : List EventBinding) :
    ({ nodeOf tag t with children, bindings } : Node).MadeFrom tag where
  span := rfl
  name := h.symm
  attributes := by
    have hall : (tag.attrs.filter fun a => ({ nodeOf tag t with children, bindings } : Node).admits
        a.name a.value) = tag.attrs := List.filter_eq_self.2 fun _ _ => rfl
    rw [hall]
    rfl

/-- An element of HTML keeps its safe attributes, and no others. -/
theorem yields_safe (tag : OpenTag) (attrs : List Markup.Attr) :
    Yields r (safeAttributes tag attrs) fun as => as = (attrs.filter fun a =>
      (unsafeReason? a.name a.value).isNone).map fun a => (a.name, a.value) := by
  induction attrs with
  | nil => exact .pure rfl
  | cons a attrs ih =>
    unfold safeAttributes
    split
    · rename_i reason hreason
      rw [List.filter_cons_of_neg (by rw [hreason]; exact Bool.false_ne_true)]
      exact .bind fun _ => ih
    · rename_i hsafe
      rw [List.filter_cons_of_pos (by rw [hsafe]; rfl), List.map_cons]
      exact ih.seq fun as has => .pure (has ▸ rfl)

/-! ## Elements with nothing below them -/

section Leaves

variable (tag : OpenTag) (names : List String)

/-- A node as it comes out of a tag, that may do something. -/
def Bare (tag : OpenTag) (t : DslTag) (n : Node) : Prop :=
  ∃ bindings, n = { nodeOf tag t with bindings }

theorem bare_nodeOf (t : DslTag) : Bare tag t (nodeOf tag t) := ⟨[], rfl⟩

theorem bare_declaration (children : List RawNode) :
    Gives r (declaration tag children) (Bare tag .var) := by
  have hend {α : Type} {x : Attempt α} {f : α → Draft → Draft} : Gives r (do
      let a ← x
      modify (f a)
      return nodeOf tag .var : Attempt Node) (Bare tag .var) :=
    .bind fun _ => .bind fun _ => .pure (bare_nodeOf tag _)
  refine .bind fun name => ?_
  split
  · exact .reject _ _ _
  · dsimp only
    split
    · exact .reject _ _ _
    · refine .bind fun d => ?_
      split
      · exact .reject _ _ _
      · refine .bind fun _ => ?_
        split
        · exact hend
        · exact hend
        · exact hend

theorem bare_showVar : Gives r (showVar tag names) (Bare tag .showVar) := by
  have hend : Gives r (pure (nodeOf tag .showVar)) (Bare tag .showVar) := .pure (bare_nodeOf tag _)
  refine .bind fun path => .bind fun _ => ?_
  dsimp only
  split
  · split
    · exact .bind fun _ => hend
    · exact hend
  · exact hend

theorem bare_inputField (t : DslTag) (depth : Nat) (children : List RawNode) :
    Gives r (inputField tag t names depth children) (Bare tag t) := by
  have hend : Gives r (do
      return { nodeOf tag t with bindings := ← fieldBindings tag names (depth + 1) children })
      (Bare tag t) := .bind fun bindings => .pure ⟨bindings, rfl⟩
  refine .bind fun var => .bind fun found => ?_
  split
  · refine .bind fun readOnly => ?_
    split
    · exact .bind fun _ => hend
    · exact hend
  · exact hend

theorem bare_lifecycle (e : EventTag) (depth : Nat) (children : List RawNode) :
    Gives r (lifecycle tag e names depth children) (Bare tag (.event e)) := by
  refine .bind fun actions => ?_
  split
  · refine .bind fun raw => .bind fun rules => ?_
    dsimp only
    split
    · exact .pure ⟨_, rfl⟩
    · exact .reject _ _ _
  · exact .pure ⟨_, rfl⟩

theorem bare_leaf (t : DslTag) (depth : Nat) (children : List RawNode) :
    Gives r (leaf tag t names depth children) (Bare tag t) := by
  have hmisplaced : ∀ place, Gives r (misplaced tag place) (Bare tag t) :=
    fun place => .reject _ _ _
  cases t with
  | var => exact bare_declaration tag children
  | showVar => exact bare_showVar tag names
  | textInput | checkbox => exact bare_inputField tag names _ depth children
  | event e =>
    cases e with
    | onMount | onInterval => exact bare_lifecycle tag names _ depth children
    | onClick | onChange => exact hmisplaced _
  | resident t => exact .bind fun _ => .pure (bare_nodeOf tag _)
  | action | caseBranch | defaultBranch | ifChain | ifBranch | elseIfBranch | elseBranch =>
    exact hmisplaced _
  | switch | forEach | button => exact .failure

end Leaves

/-! ## Trees -/

mutual

theorem made_siblings (skipped : Skipped) (inChain : Bool) (p : Place) : (ns : List RawNode) →
    Yields r (siblings skipped inChain p ns) fun found =>
      AllMadeFrom (tagsAll ns) (found.1 ++ found.2)
  | [] => .pure (.nil _)
  | .text content span :: rest => by
    unfold siblings
    split
    · exact made_siblings skipped true p rest
    · exact (made_siblings skipped false p rest).seq fun found hfound =>
        .pure (.wrap hfound.right rfl)
  | .element tag children :: rest => by
    have hbranch := fun t ht => (made_branch t p (.element tag children) ht).run
    have hrest := fun chain => made_siblings skipped chain p rest
    unfold siblings
    split
    · exact (hrest inChain).mono fun _ hfound => hfound.prepend _
    · split
      · rename_i hname
        have hname : tag.name = DslTag.elseIfBranch.name :=
          of_decide_eq_true (Bool.and_eq_true_iff.1 hname).2
        refine (hbranch .elseIfBranch ?_).seq fun b hb => (hrest true).seq fun found hfound =>
          .pure ?_
        · rintro _ _ ⟨⟩
          exact hname
        · rw [List.append_assoc]
          exact (AllMadeFrom.toList hb).append hfound
      · split
        · rename_i hname
          have hname : tag.name = DslTag.elseBranch.name :=
            of_decide_eq_true (Bool.and_eq_true_iff.1 hname).2
          refine (hbranch .elseBranch ?_).seq fun b hb => (hrest false).seq fun found hfound =>
            .pure ((AllMadeFrom.toList hb).append hfound.right)
          rintro _ _ ⟨⟩
          exact hname
        · split
          · rename_i hname
            refine (hbranch .ifBranch ?_).seq fun b hb => (hrest true).seq fun found hfound =>
              .pure ?_
            · rintro _ _ ⟨⟩
              exact hname
            · refine AllMadeFrom.wrap ?_ rfl
              rw [List.append_assoc]
              exact (AllMadeFrom.toList hb).append hfound
          · exact (made_element p (.element tag children)).run.seq fun n hn =>
              (hrest false).seq fun found hfound =>
                .pure ((AllMadeFrom.toList hn).append hfound.right)

theorem made_branch (t : DslTag) (p : Place) : (n : RawNode) →
    (∀ tag children, n = .element tag children → tag.name = t.name) →
    Gives r (branch t p n) fun b => AllMadeFrom (tags n) [b]
  | .text .., _ => .failure
  | .element tag children, hname => by
    have hend : Gives r (do
        let (_, nodes) ← siblings [] false (p.below 1) children
        return { nodeOf tag t with children := nodes })
        fun b => AllMadeFrom (tags (.element tag children)) [b] :=
      (Gives.lift (made_siblings [] false (p.below 1) children)).seq fun found hfound =>
        .pure (hfound.right.node (madeFrom_nodeOf (hname _ _ rfl) _ _))
    unfold branch
    refine .bind fun counted => .givenUp fun _ => ?_
    dsimp only
    split
    · exact .bind fun _ => hend
    · exact hend

theorem made_cases (p : Place) : (ns : List RawNode) →
    Yields r (cases p ns) (AllMadeFrom (tagsAll ns))
  | [] => .pure (.nil _)
  | n :: rest => by
    unfold cases
    exact (made_caseOf p n).run.seq fun c hc => (made_cases p rest).seq fun more hmore =>
      .pure ((AllMadeFrom.toList hc).append hmore)

theorem made_caseOf (p : Place) : (n : RawNode) →
    Gives r (caseOf p n) fun c => AllMadeFrom (tags n) [c]
  | .text content span => by
    unfold caseOf
    dsimp only
    split
    · exact .bind fun _ => .failure
    · exact .failure
  | .element tag children => by
    have hend (t : DslTag) (hname : tag.name = t.name) : Gives r (do
        let (_, nodes) ← siblings [] false (p.below 1) children
        return { nodeOf tag t with children := nodes })
        fun c => AllMadeFrom (tags (.element tag children)) [c] :=
      (Gives.lift (made_siblings [] false (p.below 1) children)).seq fun found hfound =>
        .pure (hfound.right.node (madeFrom_nodeOf hname _ _))
    unfold caseOf
    split
    · rename_i hname
      exact .bind fun counted => .givenUp fun _ => .bind fun _ => hend .caseBranch hname
    · split
      · rename_i hname
        exact .bind fun counted => .givenUp fun _ => hend .defaultBranch hname
      · exact .bind fun _ => .failure

theorem made_element (p : Place) : (n : RawNode) →
    Gives r (element p n) fun m => AllMadeFrom (tags n) [m]
  | .text .. => .failure
  | .element tag children => by
    have hsiblings := fun skipped p => Gives.lift (made_siblings skipped false p children)
    unfold element
    refine .bind fun counted => .givenUp fun _ => ?_
    dsimp only
    split
    · refine (Gives.lift (yields_safe tag tag.attrs)).seq fun attributes hattributes => ?_
      refine (hsiblings [] (p.below 1)).seq fun found hfound => .pure (hfound.right.node ?_)
      exact ⟨rfl, rfl, congrArg Dict.ofList hattributes⟩
    · split
      · exact .reject _ _ _
      · rename_i hname
        exact .bind fun _ => (Gives.lift (made_cases (p.below 1) children)).seq fun nodes hnodes =>
          .pure (hnodes.node (madeFrom_nodeOf (name_of_ofName? hname).symm _ _))
      · rename_i hname
        exact .bind fun path => .bind fun _ => .bind fun bound =>
          (hsiblings [] ⟨p.names ++ bound, p.depth + 1⟩).seq fun found hfound =>
            .pure (hfound.right.node (madeFrom_nodeOf (name_of_ofName? hname).symm _ _))
      · rename_i hname
        exact .bind fun bindings => (hsiblings [EventTag.onClick.name] (p.below 1)).seq
          fun found hfound =>
            .pure (hfound.right.node (madeFrom_nodeOf (name_of_ofName? hname).symm _ _))
      · rename_i hname
        refine fun d n hn => ?_
        obtain ⟨bindings, rfl⟩ := bare_leaf tag p.names _ p.depth children d n hn
        refine AllMadeFrom.node ?_ (madeFrom_nodeOf (name_of_ofName? hname).symm _ _)
        exact .nil _

end

end Compile

/-! ## Marked trees -/

namespace Island.Survey

open Template (Node)

variable (s : Survey)

mutual

/-- The node of an island that is found stands in the marked tree. -/
theorem node_mem_mark (found : List Island) : (n : Node) →
    ∀ i ∈ (s.mark found n).2, i ∈ found ∨ i.node ∈ (s.mark found n).1.walk
  | ⟨tag, attributes, children, span, bindings, island⟩ => by
    rw [mark_eq]
    split
    · intro i hi
      refine (List.mem_append.1 hi).imp_right fun hi => ?_
      rw [List.mem_singleton.1 hi]
      exact Node.mem_walk_self _
    · intro i hi
      refine (node_mem_markAll found children i hi).imp_right fun hi => ?_
      exact Node.walkAll_children_subset _ hi

theorem node_mem_markAll (found : List Island) : (ns : List Node) →
    ∀ i ∈ (s.markAll found ns).2, i ∈ found ∨ i.node ∈ Node.walkAll (s.markAll found ns).1
  | [], _, hi => .inl hi
  | n :: ns, i, hi => by
    unfold markAll at hi ⊢
    rw [Node.walkAll, List.mem_append]
    rcases node_mem_markAll _ ns i hi with hi | hi
    · exact (node_mem_mark found n i hi).imp_right .inl
    · exact .inr (.inr hi)

end

theorem Marked.isElement {n m : Node} (h : Marked n m) : m.isElement = n.isElement := by
  unfold Node.isElement
  rw [h.tag]

theorem Marked.madeFrom {n m : Node} (h : Marked n m) {tag : OpenTag} (hn : n.MadeFrom tag) :
    m.MadeFrom tag where
  span := h.span.trans hn.span
  name := by rw [h.tag, hn.name]
  attributes := by
    have hadmits : ∀ name value, m.admits name value = n.admits name value := fun name value => by
      unfold Node.admits
      rw [h.tag]
    rw [h.attributes, hn.attributes]
    simp only [hadmits]

theorem forall₂_of_marked {ns ms : List Node} (h : List.Forall₂ Marked ns ms)
    {used : List OpenTag} (hused : List.Forall₂ Node.MadeFrom (ns.filter (·.isElement)) used) :
    List.Forall₂ Node.MadeFrom (ms.filter (·.isElement)) used := by
  induction h generalizing used with
  | nil => exact hused
  | @cons n m ns ms hmarked _ ih =>
    rw [List.filter_cons] at hused ⊢
    rw [hmarked.isElement]
    split at hused
    · rename_i hn
      rw [if_pos hn]
      cases hused with
      | cons hfirst hrest => exact .cons (hmarked.madeFrom hfirst) (ih hrest)
    · rename_i hn
      rw [if_neg hn]
      exact ih hused

end Island.Survey

namespace Template

/-- The elements of a template, those of its islands among them, carry the last values of the tags
that they are made from, where a check looks at the first: the same where no name is repeated. HTML
is left without values that are unsafe. -/
theorem carried_of_compile {c : Config} {src : String} {raw : List RawNode} {t : Template}
    (hraw : Markup.parse c.compiler.maxDepth src = .ok raw)
    (h : (compile c src).template? = some t) :
    (∀ i ∈ t.islands, i.node ∈ t.root.walk) ∧
    ∃ used, used.Sublist (tagsAll raw) ∧ List.Forall₂ (fun n tag =>
      n.span = tag.span ∧ n.tag.name = tag.name ∧ ∀ name,
        n.attr? name = ((tag.values name).filter (n.admits name)).getLast? ∧
        ((tag.values name).length ≤ 1 → n.attr? name = (tag.attr? name).filter (n.admits name)) ∧
        ((∀ value ∈ tag.values name, n.admits name value = true) →
          (n.attr? name = tag.attr? name ↔
            (tag.values name).head? = (tag.values name).getLast?)))
      (t.root.walk.filter (·.isElement)) used := by
  obtain ⟨raw', hraw', h⟩ := Compile.exists_raw h
  obtain rfl := Except.ok.inj (hraw.symm.trans hraw')
  obtain ⟨found, draft, hrun, -, -, hextract⟩ := Compile.exists_draft h
  have hmade := Compile.made_siblings (r := Compile.rules c raw) [] false ⟨[], 1⟩ raw {}
  rw [hrun] at hmade
  obtain ⟨used, hsub, hused⟩ : Node.AllMadeFrom (tagsAll raw) [Node.fragment found.2] :=
    .wrap ((List.append_nil found.2).symm ▸ hmade.right) rfl
  let survey : Island.Survey := ⟨Compile.templateId src, reactive (.fragment found.2) t.decls⟩
  have hroot : t.root = (survey.mark [] (.fragment found.2)).1 := congrArg Prod.fst hextract
  have hislands : t.islands = (survey.mark [] (.fragment found.2)).2 := congrArg Prod.snd hextract
  rw [hroot, hislands]
  refine ⟨fun i hi => ?_, used, hsub, ?_⟩
  · exact (survey.node_mem_mark [] _ i hi).resolve_left List.not_mem_nil
  · rw [Node.walkAll_singleton] at hused
    refine (Island.Survey.forall₂_of_marked (survey.marked_walk [] _) hused).imp fun n tag hn => ?_
    exact ⟨hn.span, hn.name, fun name => ⟨hn.attr?_eq name, hn.attr?_of_single, hn.attr?_eq_iff⟩⟩

/-- A text with a fallback in a paragraph that would do something. -/
def noticeMarkup : String :=
  "<Var name=\"a\"/><p class=\"big\" onclick=\"run()\"><ShowVar var=\"a\" fallback=\"none\"/></p>"

/-- Each node has the variable that its tag names, if a node of its kind takes one. -/
theorem carried_notice : ∃ raw t, Markup.parse 64 noticeMarkup = .ok raw ∧
    (compile {} noticeMarkup).template? = some t ∧
    ∀ n ∈ t.root.walk, n.isElement = true → ∃ tag ∈ tagsAll raw,
      n.span = tag.span ∧ n.attr? "var" = (tag.attr? "var").filter (n.admits "var") := by
  have he : ((Markup.parse 64 noticeMarkup).toOption.bind fun raw =>
      (compile {} noticeMarkup).template?.map fun t =>
        decide (∀ tag ∈ tagsAll raw, (tag.values "var").length ≤ 1)) = some true := by
    decide +kernel
  obtain ⟨raw, hraw, he⟩ := Option.bind_eq_some_iff.1 he
  obtain ⟨t, ht, he⟩ := Option.map_eq_some_iff.1 he
  have hraw := toOption_eq_some.1 hraw
  obtain ⟨-, used, hsub, hused⟩ := carried_of_compile (c := {}) hraw ht
  refine ⟨raw, t, hraw, ht, fun n hn helement => ?_⟩
  obtain ⟨tag, htag, hspan, -, hattr⟩ :=
    exists_of_forall₂ hused n (List.mem_filter.2 ⟨hn, helement⟩)
  have htag := hsub.subset htag
  exact ⟨tag, htag, hspan, (hattr "var").2.1 (of_decide_eq_true he tag htag)⟩

/-- A text that is checked for one variable and shows another. -/
def changelingMarkup : String := "<Var name=\"a\"/><ShowVar var=\"a\" var=\"b\"/>"

/-- The tag names one variable first, and its node has the other. -/
theorem not_carried_changeling : ∃ raw t tag n, Markup.parse 64 changelingMarkup = .ok raw ∧
    (compile {} changelingMarkup).template? = some t ∧ tag ∈ tagsAll raw ∧ n ∈ t.root.walk ∧
    n.isElement = true ∧ n.span = tag.span ∧
    (∀ tag' ∈ tagsAll raw, tag'.span = n.span → tag' = tag) ∧
    tag.attr? "var" = some "a" ∧ n.attr? "var" = some "b" := by
  have he : ((Markup.parse 64 changelingMarkup).toOption.bind fun raw =>
      (compile {} changelingMarkup).template?.bind fun t => (tagsAll raw).findSome? fun tag =>
        t.root.walk.findSome? fun n => if n.dsl? = some .showVar ∧ tag.name = "ShowVar" then
          some (decide (n.isElement = true ∧ n.span = tag.span ∧
            (∀ tag' ∈ tagsAll raw, tag'.span = n.span → tag' = tag) ∧
              tag.attr? "var" = some "a" ∧ n.attr? "var" = some "b")) else none) = some true := by
    decide +kernel
  obtain ⟨raw, hraw, he⟩ := Option.bind_eq_some_iff.1 he
  obtain ⟨t, ht, he⟩ := Option.bind_eq_some_iff.1 he
  obtain ⟨tag, htag, he⟩ := List.exists_of_findSome?_eq_some he
  obtain ⟨n, hn, he⟩ := List.exists_of_findSome?_eq_some he
  obtain ⟨-, he⟩ := Option.ite_none_right_eq_some.1 he
  exact ⟨raw, t, tag, n, toOption_eq_some.1 hraw, ht, htag, hn,
    of_decide_eq_true (Option.some.inj he)⟩

end Template

end Archipelago
