import Archipelago.Proofs.Document.Mount
import Mathlib.Logic.Relation

/-!
# Documents are trees

Each operation leaves a document in which a node is behind the one that it hangs below, and hangs
below no other. So the places that a walk finds are apart: each is found once, none is below another
one, and work on some of them does not show in what the others hold.
-/

namespace Archipelago

namespace Document

variable {d d' : Document}

/-- The documents that the operations make. -/
inductive Built : Document → Prop
  | empty : Built {}
  | element {d : Document} (h : Built d) {parent : Option NodeId}
    (hp : ∀ p ∈ parent, p < d.nodes.size) (tag : String) (attributes : Dict String) :
    Built (d.addElement parent tag attributes).1
  | html {d : Document} (h : Built d) {parent : NodeId} (hp : parent < d.nodes.size)
    (html : String) : Built (d.addHtml parent html).1
  | setAttr {d : Document} (h : Built d) (n : NodeId) (name value : String) :
    Built (d.setAttr n name value)
  | removeAttr {d : Document} (h : Built d) (n : NodeId) (name : String) :
    Built (d.removeAttr n name)
  | setInnerHtml {d : Document} (h : Built d) (n : NodeId) (html : String) :
    Built (d.setInnerHtml n html)

/-- Children are in the order of their creation, behind their parent, and know it. -/
structure Formed (d : Document) : Prop where
  sorted : ∀ n, (d.childrenOf n).Pairwise (· < ·)
  child : ∀ {n c}, c ∈ d.childrenOf n → n < c ∧ d.parentOf? c = some n

/-! ## Links -/

theorem lt_size_of_parentOf? {n p : NodeId} (h : d.parentOf? n = some p) : n < d.nodes.size := by
  obtain ⟨x, hx, -⟩ := Option.bind_eq_some_iff.1 h
  exact (Array.getElem?_eq_some_iff.1 hx).1

theorem node?_modify (d : Document) (n m : NodeId) (f : DocumentNode → DocumentNode) :
    (d.modify n f).node? m = if n = m then (d.node? m).map f else d.node? m :=
  Array.getElem?_modify

/-- Work that keeps the parents of nodes. -/
theorem parentOf?_modify (d : Document) (n m : NodeId) {f : DocumentNode → DocumentNode}
    (h : ∀ x, (f x).parent? = x.parent?) : (d.modify n f).parentOf? m = d.parentOf? m := by
  unfold parentOf?
  rw [node?_modify]
  split
  · cases d.node? m with
    | none => rfl
    | some x => exact h x
  · rfl

/-- Work that keeps the children of nodes. -/
theorem childrenOf_modify (d : Document) (n m : NodeId) {f : DocumentNode → DocumentNode}
    (h : ∀ x, (f x).children = x.children) : (d.modify n f).childrenOf m = d.childrenOf m := by
  unfold childrenOf
  rw [node?_modify]
  split
  · cases d.node? m with
    | none => rfl
    | some x => exact h x
  · rfl

theorem childrenOf_setParent (d : Document) (n m : NodeId) (parent : Option NodeId) :
    (d.modify n (·.setParent parent)).childrenOf m = d.childrenOf m :=
  childrenOf_modify d n m fun x => by cases x <;> rfl

/-- Children that are cut off have no parent any more. -/
theorem parentOf?_cutOff (d : Document) (children : List NodeId) (m : NodeId) :
    (children.foldl (fun d c => d.modify c (·.setParent none)) d).parentOf? m =
      if m ∈ children then none else d.parentOf? m := by
  induction children generalizing d with
  | nil => simp
  | cons c children ih =>
    have hfirst : (d.modify c (·.setParent none)).parentOf? m =
        if c = m then none else d.parentOf? m := by
      unfold parentOf?
      rw [node?_modify]
      split
      · cases d.node? m with
        | none => rfl
        | some x => cases x <;> rfl
      · rfl
    rw [List.foldl_cons, ih, hfirst]
    grind

/-- Who is cut off is still in the list of children. -/
theorem childrenOf_cutOff (d : Document) (children : List NodeId) (m : NodeId) :
    (children.foldl (fun d c => d.modify c (·.setParent none)) d).childrenOf m =
      d.childrenOf m :=
  List.foldlRecOn children _ (motive := fun e : Document => e.childrenOf m = d.childrenOf m) rfl
    fun _ h c _ => (childrenOf_setParent _ c m none).trans h

/-- The children of a cleared element have no parent any more. -/
theorem parentOf?_cleared (d : Document) (n m : NodeId) :
    (d.cleared n).parentOf? m = if m ∈ d.childrenOf n then none else d.parentOf? m := by
  unfold cleared
  rw [parentOf?_cutOff, parentOf?_modify _ _ _ fun x => by cases x <;> rfl]

/-- A cleared element has no children, and all others have theirs. -/
theorem childrenOf_cleared (d : Document) (n m : NodeId) :
    (d.cleared n).childrenOf m = if n = m then [] else d.childrenOf m := by
  unfold cleared
  rw [childrenOf_cutOff]
  unfold childrenOf
  rw [node?_modify]
  split
  · cases d.node? m with
    | none => rfl
    | some x => cases x <;> rfl
  · rfl

theorem roots_cleared (d : Document) (n : NodeId) : (d.cleared n).roots = d.roots :=
  List.foldlRecOn (d.childrenOf n) _ (motive := fun e : Document => e.roots = d.roots) rfl
    fun _ h _ _ => h

/-- Is the node an element of the document? -/
def isElement (d : Document) (n : NodeId) : Bool := (d.core? n).any (!·.isHtml)

/-- A node is an element if it has attributes and children. -/
theorem isElement_iff {d : Document} {n : NodeId} :
    d.isElement n = true ↔ ∃ attributes children, d.HasElement n attributes children := by
  unfold isElement HasElement core?
  cases d.node? n with
  | none => simp
  | some x => cases x <;> simp [DocumentNode.core, DocumentNode.setParent, DocumentNode.isHtml]

theorem lt_size_of_isElement {d : Document} {n : NodeId} (h : d.isElement n = true) :
    n < d.nodes.size := by
  obtain ⟨_, _, _, hn⟩ := isElement_iff.1 h
  exact lt_size_of_core? hn

/-- New markup: the element is cleared, and a node with the markup is added if there is any. -/
theorem setInnerHtml_eq (d : Document) (n : NodeId) (html : String) :
    d.setInnerHtml n html =
      if d.isElement n then
        if html = "" then d.cleared n else ((d.cleared n).addHtml n html).1
      else d := by
  unfold isElement core?
  cases hn : d.node? n with
  | none =>
    unfold setInnerHtml
    rw [hn]
    rfl
  | some x =>
    cases x with
    | element => exact setInnerHtml_of_node? hn html
    | html =>
      unfold setInnerHtml
      rw [hn]
      rfl

theorem node?_push (d : Document) (x : DocumentNode) (m : NodeId) :
    Document.node? ⟨d.nodes.push x, d.roots⟩ m =
      if m = d.nodes.size then some x else d.node? m :=
  Array.getElem?_push

theorem parentOf?_add (d : Document) (x : DocumentNode) (m : NodeId) :
    (d.add x).1.parentOf? m = if m = d.nodes.size then x.parent? else d.parentOf? m := by
  have hpush : Document.parentOf? ⟨d.nodes.push x, d.roots⟩ m =
      if m = d.nodes.size then x.parent? else d.parentOf? m := by
    unfold parentOf?
    rw [node?_push]
    split
    · rfl
    · rfl
  rw [← hpush]
  unfold add
  dsimp only
  split
  · exact parentOf?_modify _ _ m fun x => by cases x <;> rfl
  · rfl

/-- Nobody gets a new child but the parent of the new node. -/
theorem childrenOf_add (d : Document) {x : DocumentNode} (hx : x.children = []) (m : NodeId) :
    (d.add x).1.childrenOf m = d.childrenOf m ∨
      x.parent? = some m ∧ (d.add x).1.childrenOf m = d.childrenOf m ++ [d.nodes.size] := by
  have hpush : Document.childrenOf ⟨d.nodes.push x, d.roots⟩ m = d.childrenOf m := by
    unfold childrenOf
    rw [node?_push]
    split
    · rename_i he
      unfold node?
      rw [he, Array.getElem?_eq_none (Nat.le_refl _)]
      exact hx
    · rfl
  unfold add
  dsimp only
  split
  · rename_i parent hp
    by_cases he : parent = m
    · subst he
      unfold childrenOf at hpush ⊢
      rw [node?_modify, if_pos rfl]
      cases hnode : Document.node? ⟨d.nodes.push x, d.roots⟩ parent with
      | none => exact .inl (by rw [hnode] at hpush; exact hpush)
      | some y =>
        rw [hnode] at hpush
        cases y with
        | element tag attributes children parent' =>
          exact .inr ⟨hp, congrArg (· ++ [d.nodes.size]) hpush⟩
        | html => exact .inl hpush
    · refine .inl ((?_ : _ = _).trans hpush)
      unfold childrenOf
      rw [node?_modify, if_neg he]
  · exact .inl hpush

/-- The only new child is the new node, below its parent. -/
theorem mem_childrenOf_add {d : Document} {x : DocumentNode} (hx : x.children = []) {m c : NodeId}
    (hc : c ∈ (d.add x).1.childrenOf m) :
    c ∈ d.childrenOf m ∨ x.parent? = some m ∧ c = d.nodes.size := by
  rcases childrenOf_add d hx m with he | ⟨hp, he⟩
  · exact .inl (he ▸ hc)
  · rw [he] at hc
    exact (List.mem_append.1 hc).imp id fun hc => ⟨hp, List.mem_singleton.1 hc⟩

/-! ## Formed documents -/

namespace Formed

/-- Whether a document is formed is a matter of parents and children. -/
theorem congr (h : d.Formed) (hc : ∀ n, d'.childrenOf n = d.childrenOf n)
    (hp : ∀ n, d'.parentOf? n = d.parentOf? n) : d'.Formed where
  sorted n := hc n ▸ h.sorted n
  child hmem := hp _ ▸ h.child (hc _ ▸ hmem)

theorem mapAttributes (h : d.Formed) (n : NodeId) (f : Dict String → Dict String) :
    (d.modify n (·.mapAttributes f)).Formed :=
  h.congr (fun m => childrenOf_modify d n m fun x => by cases x <;> rfl)
    fun m => parentOf?_modify d n m fun x => by cases x <;> rfl

/-- A new node comes behind all others. -/
theorem add (h : d.Formed) {x : DocumentNode} (hx : x.children = [])
    (hp : ∀ p ∈ x.parent?, p < d.nodes.size) : (d.add x).1.Formed := by
  have hold : ∀ {m c}, c ∈ d.childrenOf m → c < d.nodes.size := fun hc =>
    lt_size_of_parentOf? (h.child hc).2
  refine ⟨fun m => ?_, fun {m c} hc => ?_⟩
  · rcases childrenOf_add d hx m with he | ⟨-, he⟩
    · exact he ▸ h.sorted m
    · rw [he, List.pairwise_append]
      refine ⟨h.sorted m, List.pairwise_singleton _ _, fun c hc c' hc' => ?_⟩
      rw [List.mem_singleton.1 hc']
      exact hold hc
  · rw [parentOf?_add]
    rcases mem_childrenOf_add hx hc with hc | ⟨hm, rfl⟩
    · rw [if_neg (Nat.ne_of_lt (hold hc))]
      exact h.child hc
    · rw [if_pos rfl]
      exact ⟨hp m hm, hm⟩

/-- Whose children are cut off has none, and the others keep theirs. -/
theorem cleared (h : d.Formed) (n : NodeId) : (d.cleared n).Formed := by
  refine ⟨fun m => ?_, fun {m c} hc => ?_⟩
  · rw [childrenOf_cleared]
    split
    · exact List.Pairwise.nil
    · exact h.sorted m
  · rw [childrenOf_cleared] at hc
    split at hc
    · cases hc
    · rename_i hne
      obtain ⟨hlt, hup⟩ := h.child hc
      rw [parentOf?_cleared, if_neg]
      · exact ⟨hlt, hup⟩
      · exact fun hcut => hne (Option.some.inj ((h.child hcut).2.symm.trans hup))

/-- New markup keeps a document formed. -/
theorem setInnerHtml (h : d.Formed) (n : NodeId) (html : String) :
    (d.setInnerHtml n html).Formed := by
  rw [setInnerHtml_eq]
  split
  · rename_i hel
    split
    · exact h.cleared n
    · refine (h.cleared n).add rfl fun p hp => ?_
      rw [size_cleared, ← Option.some.inj hp]
      exact lt_size_of_isElement hel
  · exact h

end Formed

/-- Whatever is done to a document, it stays formed. -/
theorem Built.formed (h : d.Built) : d.Formed := by
  induction h with
  | empty => exact ⟨fun _ => List.Pairwise.nil, fun hc => by cases hc⟩
  | element _ hp tag attributes ih => exact ih.add rfl hp
  | html _ hp html ih => exact ih.add rfl fun p h => Option.some.inj h ▸ hp
  | setAttr _ n name value ih => exact ih.mapAttributes n _
  | removeAttr _ n name ih => exact ih.mapAttributes n _
  | setInnerHtml _ n html ih => exact ih.setInnerHtml n html

theorem size_addElement (d : Document) (parent : Option NodeId) (tag : String)
    (attributes : Dict String) :
    (d.addElement parent tag attributes).1.nodes.size = d.nodes.size + 1 := size_add d _

mutual

/-- A page can be mounted in a document that is built, piece by piece. -/
theorem built_mount (d : Document) (h : d.Built) (parent : NodeId) (hp : parent < d.nodes.size) :
    (n : Page.Node) → (d.mount parent n).Built ∧ d.nodes.size ≤ (d.mount parent n).nodes.size
  | .text content => by
    unfold mount
    exact ⟨h.html hp _, (size_add d _).ge.trans' (Nat.le_succ _)⟩
  | .raw html => by
    unfold mount
    exact ⟨h.html hp _, (size_add d _).ge.trans' (Nat.le_succ _)⟩
  | .fragment children => by
    unfold mount
    exact built_mountAll d h parent hp children
  | .element tag attributes children => by
    have hnew : (d.addElement (some parent) tag (Dict.ofList attributes)).1.Built :=
      h.element (fun p h => Option.some.inj h ▸ hp) tag _
    have hsize := size_addElement d (some parent) tag (Dict.ofList attributes)
    unfold mount
    rw [addElement_eq] at hnew hsize ⊢
    obtain ⟨hbuilt, hle⟩ := built_mountAll _ hnew d.nodes.size
      (by rw [hsize]; exact Nat.lt_succ_self _) children
    exact ⟨hbuilt, (Nat.le_succ _).trans (hsize.ge.trans hle)⟩
  | .island id component children => by
    have hnew : (d.addElement (some parent) "div"
        [(Page.islandAttr, id), (Page.componentAttr, component)]).1.Built :=
      h.element (fun p h => Option.some.inj h ▸ hp) "div" _
    have hsize := size_addElement d (some parent) "div"
      [(Page.islandAttr, id), (Page.componentAttr, component)]
    unfold mount addPlaceholder
    rw [addElement_eq] at hnew hsize ⊢
    dsimp only at hnew hsize ⊢
    split
    · exact ⟨hnew, (Nat.le_succ _).trans hsize.ge⟩
    · refine ⟨hnew.html (by rw [hsize]; exact Nat.lt_succ_self _) _, ?_⟩
      exact (Nat.le_succ _).trans (hsize.ge.trans ((Nat.le_succ _).trans (size_add _ _).ge))

theorem built_mountAll (d : Document) (h : d.Built) (parent : NodeId)
    (hp : parent < d.nodes.size) :
    (ns : List Page.Node) →
      (d.mountAll parent ns).Built ∧ d.nodes.size ≤ (d.mountAll parent ns).nodes.size
  | [] => ⟨h, Nat.le_refl _⟩
  | n :: ns => by
    obtain ⟨hfirst, hle⟩ := built_mount d h parent hp n
    obtain ⟨hrest, hle'⟩ := built_mountAll _ hfirst parent (hp.trans_le hle) ns
    unfold mountAll
    exact ⟨hrest, hle.trans hle'⟩

end

/-! ## Nodes below each other -/

/-- The second node is somewhere below the first one. -/
def Below (d : Document) : NodeId → NodeId → Prop :=
  Relation.TransGen fun n c => c ∈ d.childrenOf n

namespace Formed

variable (h : d.Formed) {n a b c x y : NodeId}
include h

/-- What is below another node has a parent. -/
theorem exists_parent (hb : d.Below a b) : ∃ p, d.parentOf? b = some p := by
  cases hb with
  | single hc => exact ⟨_, (h.child hc).2⟩
  | tail _ hc => exact ⟨_, (h.child hc).2⟩

/-- A node comes before all that is below it, since children are added to parents. -/
theorem lt_of_below (hb : d.Below a b) : a < b := by
  induction hb with
  | single hc => exact (h.child hc).1
  | tail _ hc ih => exact ih.trans (h.child hc).1

/-- What is above a child is its parent or above that. -/
theorem below_parent (hc : c ∈ d.childrenOf n) (hb : d.Below a c) : a = n ∨ d.Below a n := by
  obtain ⟨-, hn⟩ := h.child hc
  cases hb with
  | single hc' => exact .inl (Option.some.inj ((h.child hc').2.symm.trans hn))
  | tail hb hc' => exact .inr (Option.some.inj ((h.child hc').2.symm.trans hn) ▸ hb)

/-- Nothing is both below a node and above one of its children. -/
theorem not_below_child (hc : c ∈ d.childrenOf n) (ha : d.Below n a) : ¬d.Below a c := by
  intro hac
  rcases h.below_parent hc hac with rfl | han
  · exact Nat.lt_irrefl _ (h.lt_of_below ha)
  · exact Nat.lt_asymm (h.lt_of_below ha) (h.lt_of_below han)

/-- There is one way up only. -/
theorem below_total (ha : d.Below a x) (hb : d.Below b x) :
    a = b ∨ d.Below a b ∨ d.Below b a := by
  induction ha with
  | single hc =>
    rcases h.below_parent hc hb with rfl | hb
    · exact .inl rfl
    · exact .inr (.inr hb)
  | tail ha hc ih =>
    rcases h.below_parent hc hb with rfl | hb
    · exact .inr (.inl ha)
    · exact ih hb

/-- Two children have nothing in common. -/
theorem child_eq (hc : c ∈ d.childrenOf n) (hb : b ∈ d.childrenOf n)
    (hx : x = c ∨ d.Below c x) (hx' : x = b ∨ d.Below b x) : c = b := by
  have hnot : ∀ {c b}, c ∈ d.childrenOf n → b ∈ d.childrenOf n → ¬d.Below c b := fun hc hb hcb =>
    h.not_below_child hb (.single hc) hcb
  rcases hx with rfl | hx
  · rcases hx' with rfl | hx'
    · rfl
    · exact absurd hx' (hnot hb hc)
  · rcases hx' with rfl | hx'
    · exact absurd hx (hnot hc hb)
    · rcases h.below_total hx hx' with he | hcb | hbc
      · exact he
      · exact absurd hcb (hnot hc hb)
      · exact absurd hbc (hnot hb hc)

/-! ## Places that are apart -/

/-- A walk finds places below its start, and none that has another one above it. -/
theorem of_mem_placeholdersWithin {room : Nat} (hx : x ∈ d.placeholdersWithin room n) :
    d.isPlaceholder x = true ∧ d.Below n x ∧
      ∀ y, d.Below n y → d.Below y x → d.isPlaceholder y = false := by
  induction room generalizing n with
  | zero => cases hx
  | succ room ih =>
    obtain ⟨c, hc, hx⟩ := List.mem_flatMap.1 hx
    by_cases hplace : d.isPlaceholder c = true
    · rw [if_pos hplace] at hx
      obtain rfl := List.mem_singleton.1 hx
      exact ⟨hplace, .single hc, fun y hy hyx => absurd hyx (h.not_below_child hc hy)⟩
    · rw [if_neg hplace] at hx
      obtain ⟨hxplace, hcx, houter⟩ := ih hx
      refine ⟨hxplace, .head hc hcx, fun y hy hyx => ?_⟩
      rcases h.below_total hcx hyx with rfl | hcy | hyc
      · exact Bool.eq_false_iff.2 hplace
      · exact houter y hcy hyx
      · exact absurd hyc (h.not_below_child hc hy)

/-- What a walk finds of a child is the child or below it. -/
theorem below_of_mem {room : Nat}
    (hx : x ∈ if d.isPlaceholder c then [c] else d.placeholdersWithin room c) :
    x = c ∨ d.Below c x := by
  split at hx
  · exact .inl (List.mem_singleton.1 hx)
  · exact .inr (h.of_mem_placeholdersWithin hx).2.1

/-- No placeholder is found twice. -/
theorem nodup_placeholdersWithin (room : Nat) (n : NodeId) :
    (d.placeholdersWithin room n).Nodup := by
  induction room generalizing n with
  | zero => exact List.nodup_nil
  | succ room ih =>
    refine List.nodup_flatMap.2 ⟨fun c _ => ?_, ?_⟩
    · split
      · exact List.nodup_singleton c
      · exact ih c
    · refine (h.sorted n).imp_of_mem fun {b c} hb hc hlt x hx hx' => ?_
      exact Nat.ne_of_lt hlt (h.child_eq hb hc (h.below_of_mem hx) (h.below_of_mem hx'))

/-- Of the places that a walk finds none is below another one. -/
theorem placeholders_apart (hx : x ∈ d.placeholders n) (hy : y ∈ d.placeholders n) :
    ¬d.Below x y := by
  intro hxy
  obtain ⟨hplace, hnx, -⟩ := h.of_mem_placeholdersWithin hx
  obtain ⟨-, -, houter⟩ := h.of_mem_placeholdersWithin hy
  rw [houter x hnx hxy] at hplace
  cases hplace

theorem nodup_placeholders (n : NodeId) : (d.placeholders n).Nodup :=
  h.nodup_placeholdersWithin _ n

end Formed

/-! ## What nodes hold -/

theorem childrenOf_eq_core (d : Document) (n : NodeId) :
    d.childrenOf n = ((d.core? n).map DocumentNode.children).getD [] := by
  unfold childrenOf core?
  cases d.node? n with
  | none => rfl
  | some x => cases x <;> rfl

/-- An element is written with its children in order. -/
theorem outerHtmlWithin_succ (d : Document) (room : Nat) (n : NodeId) :
    d.outerHtmlWithin (room + 1) n =
      match d.core? n with
      | some (.element tag attributes children _) =>
        Page.openTag tag attributes ++ String.join (children.map (d.outerHtmlWithin room))
          ++ Page.closeTag tag
      | some (.html html _) => html
      | none => "" := by
  unfold core?
  rw [outerHtmlWithin]
  cases d.node? n with
  | none => rfl
  | some x => cases x <;> rfl

theorem outerHtmlWithin_of_none {n : NodeId} (hn : d.core? n = none) (room : Nat) :
    d.outerHtmlWithin room n = "" := by
  cases room with
  | zero => rfl
  | succ room => rw [outerHtmlWithin_succ, hn]

/-- There are no nodes behind the last one. -/
theorem core?_eq_none {n : NodeId} (hn : d.nodes.size ≤ n) : d.core? n = none := by
  unfold core? node?
  rw [Array.getElem?_eq_none hn]
  rfl

/-- The same node shows the same if its children do. -/
theorem outerHtmlWithin_of_children {room room' : Nat} {n : NodeId} (hn : d'.core? n = d.core? n)
    (hchildren : ∀ c ∈ d.childrenOf n, d'.outerHtmlWithin room' c = d.outerHtmlWithin room c) :
    d'.outerHtmlWithin (room' + 1) n = d.outerHtmlWithin (room + 1) n := by
  rw [childrenOf_eq_core] at hchildren
  rw [outerHtmlWithin_succ, outerHtmlWithin_succ, hn]
  cases hx : d.core? n with
  | none => rfl
  | some x =>
    rw [hx] at hchildren
    cases x with
    | element tag attributes children parent =>
      exact congrArg (fun l => Page.openTag tag attributes ++ String.join l ++ Page.closeTag tag)
        (List.map_congr_left hchildren)
    | html => rfl

/-- The markup of a node depends on the nodes from it downwards only. -/
theorem outerHtmlWithin_congr (room : Nat) {n : NodeId} (hn : d'.core? n = d.core? n)
    (hbelow : ∀ m, d.Below n m → d'.core? m = d.core? m) :
    d'.outerHtmlWithin room n = d.outerHtmlWithin room n := by
  induction room generalizing n with
  | zero => rfl
  | succ room ih =>
    exact outerHtmlWithin_of_children hn fun c hc =>
      ih (hbelow c (.single hc)) fun m hm => hbelow m (.head hc hm)

/-- A walk down needs no more room than there are nodes behind its start. -/
theorem Formed.outerHtmlWithin_eq (h : d.Formed) {room room' : Nat} {n : NodeId}
    (hroom : d.nodes.size ≤ n + room) (hroom' : d.nodes.size ≤ n + room') :
    d.outerHtmlWithin room n = d.outerHtmlWithin room' n := by
  induction room generalizing room' n with
  | zero =>
    have hn : d.core? n = none := core?_eq_none hroom
    rw [outerHtmlWithin_of_none hn, outerHtmlWithin_of_none hn]
  | succ room ih =>
    cases room' with
    | zero =>
      have hn : d.core? n = none := core?_eq_none hroom'
      rw [outerHtmlWithin_of_none hn, outerHtmlWithin_of_none hn]
    | succ room' =>
      refine outerHtmlWithin_of_children rfl fun c hc => ?_
      have hroom_c : ∀ r, n + (r + 1) ≤ c + r := fun r =>
        (Nat.succ_add_eq_add_succ n r).ge.trans (Nat.add_le_add_right (h.child hc).1 r)
      exact ih (hroom.trans (hroom_c room)) (hroom'.trans (hroom_c room'))

/-- What an element holds is what it held as long as it has its children and all below it is the
same. -/
theorem Formed.innerHtml_eq (h : d.Formed) (hsize : d.nodes.size ≤ d'.nodes.size) {n : NodeId}
    {attributes attributes' : Dict String} {children : List NodeId}
    (hn : d.HasElement n attributes children) (hn' : d'.HasElement n attributes' children)
    (hbelow : ∀ m, d.Below n m → d'.core? m = d.core? m) : d'.innerHtml n = d.innerHtml n := by
  have hinner : ∀ {e : Document} {attributes}, e.HasElement n attributes children →
      e.innerHtml n = String.join (children.map e.outerHtml) := by
    rintro e attributes ⟨tag, hx⟩
    obtain ⟨x, hnode, hcore⟩ := Option.map_eq_some_iff.1 hx
    unfold innerHtml
    rw [hnode]
    cases x with
    | html => cases hcore
    | element tag' attributes' children' parent =>
      have hchildren : children' = children := by
        simpa [DocumentNode.core, DocumentNode.setParent] using
          (DocumentNode.element.inj hcore).2.2.1
      rw [hchildren]
  have hmem : d.childrenOf n = children := by
    obtain ⟨tag, hx⟩ := hn
    exact childrenOf_eq d n hx
  rw [hinner hn, hinner hn']
  refine congrArg String.join (List.map_congr_left fun c hc => ?_)
  have hc : c ∈ d.childrenOf n := hmem ▸ hc
  unfold outerHtml
  rw [outerHtmlWithin_congr _ (hbelow c (.single hc)) fun m hm => hbelow m (.head hc hm)]
  exact h.outerHtmlWithin_eq (by omega) (by omega)

end Document

end Archipelago
