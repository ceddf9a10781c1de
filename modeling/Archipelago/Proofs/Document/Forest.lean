import Archipelago.Proofs.Document.Tree

/-!
# Documents are forests

As long as nodes are hung below elements, links up and links down say the same. So a way up ends, it
leads to just the nodes that have a way down, and a walk finds the outermost places in the order of
the document.

What has been replaced stays among the nodes, and nothing leads there from the top. A search for an
id goes through all nodes, so it can end where no way from the top does. It never does if the first
node of each id has not been replaced.
-/

namespace Archipelago

namespace Document

variable {d d' : Document} {replaced : NodeId → Prop} {a b c m n p x y : NodeId}

/-! ## Calls -/

/-- What a document can be asked to do. -/
inductive Call where
  | element (parent : Option NodeId) (tag : String)
  | html (parent : NodeId) (html : String)
  | container (id : String)
  | placeholder (parent : NodeId) (island component : String)
  | mount (parent : NodeId) (page : Page.Node)
  | setAttr (n : NodeId) (name value : String)
  | removeAttr (n : NodeId) (name : String)
  | setInnerHtml (n : NodeId) (html : String)

namespace Call

/-- The node that a call is on. -/
def node? : Call → Option NodeId
  | element parent _ => parent
  | container _ => none
  | html n _ | placeholder n _ _ | mount n _ | setAttr n _ _ | removeAttr n _ | setInnerHtml n _ =>
    some n

/-- What a call makes of a document. -/
def apply (d : Document) : Call → Document
  | element parent tag => (d.addElement parent tag []).1
  | html parent content => (d.addHtml parent content).1
  | container id => (d.addContainer id).1
  | placeholder parent island component => (d.addPlaceholder parent island component).1
  | mount parent page => d.mount parent page
  | setAttr n name value => d.setAttr n name value
  | removeAttr n name => d.removeAttr n name
  | setInnerHtml n content => d.setInnerHtml n content

/-- Does the node make room for what the call puts in its place? -/
def Replaces (d : Document) : Call → NodeId → Prop
  | setInnerHtml n _, m => d.Below n m
  | _, _ => False

end Call

/-- A document after calls on elements that it had by then, with the nodes that have been replaced
on the way. -/
inductive Reached : Document → (NodeId → Prop) → Prop where
  | empty : Reached {} fun _ => False
  | call {d : Document} {replaced : NodeId → Prop} (h : Reached d replaced) {c : Call}
      (hc : ∀ n ∈ c.node?, d.isElement n = true) :
      Reached (c.apply d) fun m => replaced m ∨ c.Replaces d m

/-- Is each call on an element that is there by then? -/
def onElements : Document → List Call → Bool
  | _, [] => true
  | d, c :: calls => c.node?.all d.isElement && onElements (c.apply d) calls

theorem Reached.foldl (h : Reached d replaced) (calls : List Call)
    (hcalls : onElements d calls = true) :
    ∃ replaced', Reached (calls.foldl Call.apply d) replaced' := by
  induction calls generalizing d replaced with
  | nil => exact ⟨replaced, h⟩
  | cons c calls ih =>
    obtain ⟨hc, hcalls⟩ := Bool.and_eq_true_iff.1 hcalls
    exact ih (h.call fun n hn => (Option.all_eq_true _ _).1 hc n hn) hcalls

theorem Reached.built (h : Reached d replaced) : d.Built := by
  induction h with
  | empty => exact .empty
  | @call d _ _ c hc ih =>
    have hsize : ∀ n ∈ c.node?, n < d.nodes.size := fun n hn => lt_size_of_isElement (hc n hn)
    unfold Call.apply
    cases c with
    | element parent tag => exact ih.element hsize tag []
    | html parent html => exact ih.html (hsize parent rfl) html
    | container id => exact ih.element hsize "div" _
    | placeholder parent island component => exact ih.element hsize "div" _
    | mount parent page => exact (built_mount d ih parent (hsize parent rfl) page).1
    | setAttr n name value => exact ih.setAttr n name value
    | removeAttr n name => exact ih.removeAttr n name
    | setInnerHtml n html => exact ih.setInnerHtml n html

/-! ## Nodes below elements -/

theorem mem_roots_add {x : DocumentNode} :
    n ∈ (d.add x).1.roots ↔ n ∈ d.roots ∨ x.parent? = none ∧ n = d.nodes.size := by
  unfold add
  dsimp only
  split
  · rename_i hp
    simp [hp, modify]
  · rename_i hp
    simp [hp]

/-- An element gets a child if it is told to. -/
theorem childrenOf_add_self {x : DocumentNode} (hp : x.parent? = some p)
    (hel : d.isElement p = true) :
    (d.add x).1.childrenOf p = d.childrenOf p ++ [d.nodes.size] := by
  obtain ⟨attributes, children, tag, hnode⟩ := isElement_iff.1 hel
  rw [childrenOf_eq_core, childrenOf_eq_core, core?_add d hp (lt_size_of_isElement hel), if_pos rfl,
    hnode]
  rfl

theorem isElement_add {x : DocumentNode} (hp : x.parent? = some p) (hlt : p < d.nodes.size)
    (hn : d.isElement n = true) : (d.add x).1.isElement n = true := by
  unfold isElement
  obtain ⟨attributes, children, tag, hnode⟩ := isElement_iff.1 hn
  rw [core?_add d hp hlt, if_neg (Nat.ne_of_lt (lt_size_of_isElement hn)), hnode]
  split
  · rfl
  · rfl

/-- Nodes have been hung below elements, one after the other. -/
inductive Hangs (d : Document) : Document → Prop where
  | refl : Hangs d d
  | add {d' : Document} (h : Hangs d d') {x : DocumentNode} (hx : x.children = []) {p : NodeId}
      (hp : x.parent? = some p) (hel : d'.isElement p = true) : Hangs d (d'.add x).1

namespace Hangs

theorem trans {d'' : Document} (h : Hangs d d') (h' : Hangs d' d'') : Hangs d d'' := by
  induction h' with
  | refl => exact h
  | add _ hx hp hel ih => exact ih.add hx hp hel

/-- What is an element stays one. -/
theorem isElement (h : Hangs d d') (hn : d.isElement n = true) : d'.isElement n = true := by
  induction h with
  | refl => exact hn
  | add _ _ hp hel ih => exact isElement_add hp (lt_size_of_isElement hel) ih

theorem html (hel : d.isElement p = true) (html : String) : Hangs d (d.addHtml p html).1 :=
  .add .refl rfl rfl hel

theorem element (hel : d.isElement p = true) (tag : String) (attributes : Dict String) :
    Hangs d (d.addElement (some p) tag attributes).1 ∧
      (d.addElement (some p) tag attributes).1.isElement d.nodes.size = true := by
  refine ⟨.add .refl rfl rfl hel, ?_⟩
  unfold Document.isElement addElement
  rw [core?_add_self rfl (lt_size_of_isElement hel)]
  rfl

end Hangs

mutual

/-- A page is hung below an element, node by node. -/
theorem hangs_mount (d : Document) (p : NodeId) (hel : d.isElement p = true) :
    (page : Page.Node) → Hangs d (d.mount p page)
  | .text content => .html hel _
  | .raw html => .html hel html
  | .fragment children => hangs_mountAll d p hel children
  | .element tag attributes children => by
    obtain ⟨hfirst, hnew⟩ := Hangs.element hel tag (Dict.ofList attributes)
    unfold mount
    rw [addElement_eq] at hfirst hnew ⊢
    exact hfirst.trans (hangs_mountAll _ _ hnew children)
  | .island id component children => by
    obtain ⟨hfirst, hnew⟩ :=
      Hangs.element hel "div" [(Page.islandAttr, id), (Page.componentAttr, component)]
    unfold mount addPlaceholder
    rw [addElement_eq] at hfirst hnew ⊢
    dsimp only
    split
    · exact hfirst
    · exact hfirst.trans (.html hnew _)

theorem hangs_mountAll (d : Document) (p : NodeId) (hel : d.isElement p = true) :
    (pages : List Page.Node) → Hangs d (d.mountAll p pages)
  | [] => .refl
  | page :: pages =>
    have hfirst := hangs_mount d p hel page
    hfirst.trans (hangs_mountAll _ p (hfirst.isElement hel) pages)

end

/-! ## Forests -/

/-- There is a way down to the node from the top. -/
inductive Rooted (d : Document) : NodeId → Prop where
  | root {n : NodeId} (h : n ∈ d.roots) : Rooted d n
  | child {n c : NodeId} (h : Rooted d n) (hc : c ∈ d.childrenOf n) : Rooted d c

/-- A document whose links up and down belong together. Nothing that has been replaced can be got at
from the top, and apart from the nodes at the top nothing else has no parent. -/
structure Forest (d : Document) (replaced : NodeId → Prop) : Prop extends Formed d where
  linked : ∀ {n c}, d.parentOf? c = some n → c ∈ d.childrenOf n
  top : ∀ n ∈ d.roots, n < d.nodes.size ∧ d.parentOf? n = none
  bound : ∀ n, replaced n → n < d.nodes.size
  apart : ∀ n, replaced n → ¬d.Rooted n
  covered : ∀ n < d.nodes.size, d.parentOf? n = none → n ∈ d.roots ∨ replaced n

namespace Forest

theorem empty : Forest {} fun _ => False where
  sorted _ := List.Pairwise.nil
  child hc := nomatch hc
  linked hp := nomatch hp
  top _ hn := nomatch hn
  bound _ hn := hn.elim
  apart _ hn := hn.elim
  covered n hn := absurd hn (Nat.not_lt_zero n)

/-- A document with the same links. -/
theorem congr (h : Forest d replaced) (hc : ∀ n, d'.childrenOf n = d.childrenOf n)
    (hp : ∀ n, d'.parentOf? n = d.parentOf? n) (hroots : d'.roots = d.roots)
    (hsize : d'.nodes.size = d.nodes.size) : Forest d' replaced := by
  have hrooted : ∀ {n}, d'.Rooted n → d.Rooted n := fun hn => by
    induction hn with
    | root hr => exact .root (hroots ▸ hr)
    | child _ hc' ih => exact ih.child (hc _ ▸ hc')
  exact {
    toFormed := h.toFormed.congr hc hp
    linked := fun hup => hc _ ▸ h.linked (hp _ ▸ hup)
    top := fun n hn => hp n ▸ hsize ▸ h.top n (hroots ▸ hn)
    bound := fun n hn => hsize ▸ h.bound n hn
    apart := fun n hn hr => h.apart n hn (hrooted hr)
    covered := fun n hlt hnone => hroots ▸ h.covered n (hsize ▸ hlt) (hp n ▸ hnone) }

theorem mapAttributes (h : Forest d replaced) (n : NodeId) (f : Dict String → Dict String) :
    Forest (d.modify n (·.mapAttributes f)) replaced :=
  h.congr (fun m => childrenOf_modify d n m fun x => by cases x <;> rfl)
    (fun m => parentOf?_modify d n m fun x => by cases x <;> rfl) rfl Array.size_modify

/-- A new node is at the top or below an element. Nothing is below it yet, so no new way leads to an
old one. -/
theorem add (h : Forest d replaced) {x : DocumentNode} (hx : x.children = [])
    (hp : ∀ p ∈ x.parent?, d.isElement p = true) : Forest (d.add x).1 replaced where
  toFormed := h.toFormed.add hx fun p hxp => lt_size_of_isElement (hp p hxp)
  linked := by
    intro n c hup
    rw [parentOf?_add] at hup
    split at hup
    · rename_i hc
      rw [childrenOf_add_self hup (hp n hup), hc]
      exact List.mem_append_right _ (List.mem_singleton_self _)
    · rcases childrenOf_add d hx n with he | ⟨-, he⟩
      · exact he ▸ h.linked hup
      · exact he ▸ List.mem_append_left _ (h.linked hup)
  top := by
    intro n hn
    rw [parentOf?_add, size_add]
    rcases mem_roots_add.1 hn with hn | ⟨hnone, rfl⟩
    · obtain ⟨hlt, htop⟩ := h.top n hn
      rw [if_neg (Nat.ne_of_lt hlt)]
      exact ⟨Nat.lt_succ_of_lt hlt, htop⟩
    · rw [if_pos rfl]
      exact ⟨Nat.lt_succ_self _, hnone⟩
  bound n hn := size_add d x ▸ (h.bound n hn).trans (Nat.lt_succ_self _)
  apart n hn := by
    have hrooted : ∀ {n}, (d.add x).1.Rooted n → n ≠ d.nodes.size → d.Rooted n := fun hn => by
      induction hn with
      | root hr =>
        exact fun hne => .root ((mem_roots_add.1 hr).resolve_right fun hnew => hne hnew.2)
      | child _ hc ih =>
        intro hne
        have hc := (mem_childrenOf_add hx hc).resolve_right fun hnew => hne hnew.2
        obtain ⟨hlt, hup⟩ := h.child hc
        exact .child (ih (Nat.ne_of_lt (hlt.trans (lt_size_of_parentOf? hup)))) hc
    exact fun hr => h.apart n hn (hrooted hr (Nat.ne_of_lt (h.bound n hn)))
  covered := by
    intro n hlt hnone
    rw [parentOf?_add] at hnone
    rw [size_add] at hlt
    rw [mem_roots_add]
    split at hnone
    · rename_i hnew
      exact .inl (.inr ⟨hnone, hnew⟩)
    · rename_i hold
      exact (h.covered n (Nat.lt_of_le_of_ne (Nat.le_of_lt_succ hlt) hold) hnone).imp_left .inl

theorem hangs (h : Forest d replaced) (hd : Hangs d d') : Forest d' replaced := by
  induction hd with
  | refl => exact h
  | add _ hx hp hel ih => exact ih.add hx fun p hxp => Option.some.inj (hp.symm.trans hxp) ▸ hel

/-- What is below an element is replaced when its children are cut off. No way from the top leads
through the element any more. -/
theorem cleared (h : Forest d replaced) (n : NodeId) :
    Forest (d.cleared n) fun m => replaced m ∨ d.Below n m where
  toFormed := h.toFormed.cleared n
  linked := by
    intro m c hup
    rw [parentOf?_cleared] at hup
    split at hup
    · cases hup
    · rename_i hc
      rw [childrenOf_cleared, if_neg]
      · exact h.linked hup
      · rintro rfl
        exact hc (h.linked hup)
  top := by
    intro m hm
    rw [roots_cleared] at hm
    obtain ⟨hlt, htop⟩ := h.top m hm
    rw [size_cleared, parentOf?_cleared, htop, ite_self]
    exact ⟨hlt, rfl⟩
  bound m hm := by
    rw [size_cleared]
    refine hm.elim (h.bound m) fun hb => ?_
    obtain ⟨p, hp⟩ := h.exists_parent hb
    exact lt_size_of_parentOf? hp
  apart m hm hr := by
    have hrooted : ∀ {m}, (d.cleared n).Rooted m → d.Rooted m ∧ ¬d.Below n m := fun hr => by
      induction hr with
      | @root m hr =>
        rw [roots_cleared] at hr
        refine ⟨.root hr, fun hb => ?_⟩
        obtain ⟨p, hp⟩ := h.exists_parent hb
        exact nomatch (h.top m hr).2.symm.trans hp
      | @child k c _ hc ih =>
        rw [childrenOf_cleared] at hc
        split at hc
        · cases hc
        · rename_i hne
          obtain ⟨hroot, hnot⟩ := ih
          exact ⟨hroot.child hc, fun hb => (h.below_parent hc hb).elim hne hnot⟩
    obtain ⟨hroot, hnot⟩ := hrooted hr
    exact hm.elim (fun hm => h.apart m hm hroot) hnot
  covered m hlt hnone := by
    rw [size_cleared] at hlt
    rw [parentOf?_cleared] at hnone
    rw [roots_cleared]
    split at hnone
    · rename_i hc
      exact .inr (.inr (.single hc))
    · exact (h.covered m hlt hnone).imp_right .inl

theorem setInnerHtml (h : Forest d replaced) (hel : d.isElement n = true) (html : String) :
    Forest (d.setInnerHtml n html) fun m => replaced m ∨ d.Below n m := by
  rw [setInnerHtml_eq, if_pos hel]
  split
  · exact h.cleared n
  · have hcleared : (d.cleared n).isElement n = true := by
      obtain ⟨attributes, children, tag, hnode⟩ := isElement_iff.1 hel
      unfold isElement
      rw [core?_cleared, if_pos rfl, hnode]
      rfl
    exact (h.cleared n).hangs (.html hcleared html)

end Forest

/-- Every document that can be reached is a forest. But for new content nothing is replaced. -/
theorem Reached.forest (h : Reached d replaced) : Forest d replaced := by
  induction h with
  | empty => exact .empty
  | @call d replaced _ c hc ih =>
    have hkept {e : Document} (he : Forest e replaced) : Forest e fun m => replaced m ∨ False := by
      simpa only [or_false] using he
    cases c with
    | setInnerHtml n html => exact ih.setInnerHtml (hc n rfl) html
    | element | html | container | placeholder => exact hkept (ih.add rfl hc)
    | mount parent page => exact hkept (ih.hangs (hangs_mount d parent (hc parent rfl) page))
    | setAttr n | removeAttr n => exact hkept (ih.mapAttributes n _)

/-! ## Ways up -/

/-- A way up from a node, and whether it comes past the other one. -/
inductive Climbs (d : Document) (a : NodeId) : NodeId → Bool → Prop where
  | here : Climbs d a a true
  | top {n : NodeId} (hne : n ≠ a) (hp : d.parentOf? n = none) : Climbs d a n false
  | up {n p : NodeId} {met : Bool} (hne : n ≠ a) (hp : d.parentOf? n = some p)
      (h : Climbs d a p met) : Climbs d a n met

namespace Forest

theorem lt_of_parentOf? (h : Forest d replaced) (hp : d.parentOf? n = some p) : p < n :=
  (h.child (h.linked hp)).1

/-- The way up ends before the room for it does. -/
theorem climbs_containsWithin (h : Forest d replaced) (a : NodeId) {room : Nat}
    (hroom : ∀ p, d.parentOf? n = some p → n ≤ room) :
    Climbs d a n (d.containsWithin a (room + 1) n) := by
  have hstep : ∀ {room n},
      (∀ p, d.parentOf? n = some p → Climbs d a p (d.containsWithin a room p)) →
      Climbs d a n (d.containsWithin a (room + 1) n) := by
    intro room n hup
    unfold containsWithin
    by_cases hn : n = a
    · rw [hn, decide_eq_true rfl, Bool.true_or]
      exact .here
    · rw [decide_eq_false hn, Bool.false_or]
      split
      · rename_i p hp
        exact .up hn hp (hup p hp)
      · rename_i hp
        exact .top hn hp
  have hlt : ∀ p, d.parentOf? n = some p → p < room := fun p hp =>
    (h.lt_of_parentOf? hp).trans_le (hroom p hp)
  induction room generalizing n with
  | zero => exact hstep fun p hp => absurd (hlt p hp) (Nat.not_lt_zero p)
  | succ room ih =>
    refine hstep fun p hp => ih (fun _ _ => Nat.le_of_lt_succ (hlt p hp)) fun q hq => ?_
    exact (h.lt_of_parentOf? hq).trans_le (Nat.le_of_lt_succ (hlt p hp))

theorem climbs_contains (h : Forest d replaced) (a n : NodeId) : Climbs d a n (d.contains a n) :=
  h.climbs_containsWithin a fun _ hp => Nat.le_of_lt (lt_size_of_parentOf? hp)

/-- The way up comes past the nodes that have a way down. -/
theorem met_iff (h : Forest d replaced) {met : Bool} (hclimbs : Climbs d a n met) :
    met = true ↔ n = a ∨ d.Below a n := by
  induction hclimbs with
  | here => exact iff_of_true rfl (.inl rfl)
  | top hne hp =>
    refine iff_of_false Bool.false_ne_true (not_or.2 ⟨hne, fun hb => ?_⟩)
    obtain ⟨p, hup⟩ := h.exists_parent hb
    exact nomatch hp.symm.trans hup
  | up hne hp _ ih =>
    rw [ih, or_iff_right hne]
    have hc := h.linked hp
    constructor
    · rintro (rfl | hb)
      · exact .single hc
      · exact hb.tail hc
    · exact fun hb => (h.below_parent hc hb).imp_left Eq.symm

theorem contains_iff (h : Forest d replaced) : d.contains a n = true ↔ n = a ∨ d.Below a n :=
  h.met_iff (h.climbs_contains a n)

end Forest

/-! ## The order of a document -/

/-- One node comes in front of another: it is above it, or they are at or below two children of one
node, first the one and then the other. -/
def Before (d : Document) (x y : NodeId) : Prop :=
  d.Below x y ∨ ∃ n c c', [c, c'].Sublist (d.childrenOf n) ∧
    (x = c ∨ d.Below c x) ∧ (y = c' ∨ d.Below c' y)

namespace Formed

variable (h : d.Formed)
include h

/-- A placeholder below a node is found if no other one is between them. The walk goes on below a
child that is no placeholder itself. -/
theorem mem_placeholdersWithin {room : Nat} (hroom : d.nodes.size ≤ c + room)
    (hplace : d.isPlaceholder n = true) (hb : d.Below c n)
    (houter : ∀ m, d.Below c m → d.Below m n → d.isPlaceholder m = false) :
    n ∈ d.placeholdersWithin room c := by
  induction room generalizing c with
  | zero =>
    obtain ⟨p, hp⟩ := h.exists_parent hb
    exact absurd (h.lt_of_below hb) (Nat.not_lt.2 ((lt_size_of_parentOf? hp).le.trans hroom))
  | succ room ih =>
    rw [placeholdersWithin, List.mem_flatMap]
    rcases Relation.TransGen.head'_iff.1 hb with ⟨k, hk, hkn⟩
    refine ⟨k, hk, ?_⟩
    rcases Relation.reflTransGen_iff_eq_or_transGen.1 hkn with rfl | hkn
    · rw [if_pos hplace]
      exact List.mem_singleton_self _
    · have hfree : d.isPlaceholder k = false := houter k (.single hk) hkn
      rw [hfree, if_neg Bool.false_ne_true]
      refine ih ?_ hkn fun m hm hmn => houter m (.head hk hm) hmn
      exact hroom.trans ((Nat.succ_add_eq_add_succ c room).ge.trans
        (Nat.add_le_add_right (h.child hk).1 room))

/-- A walk finds the places below its start that are below no other one. -/
theorem mem_placeholders_iff : n ∈ d.placeholders c ↔ d.isPlaceholder n = true ∧ d.Below c n ∧
    ∀ m, d.Below c m → d.Below m n → d.isPlaceholder m = false := by
  refine ⟨h.of_mem_placeholdersWithin, fun ⟨hplace, hb, houter⟩ => ?_⟩
  exact h.mem_placeholdersWithin (by omega) hplace hb houter

theorem pairwise_placeholdersWithin (room : Nat) (c : NodeId) :
    (d.placeholdersWithin room c).Pairwise d.Before := by
  induction room generalizing c with
  | zero => exact .nil
  | succ room ih =>
    refine List.pairwise_flatMap.2 ⟨fun k _ => ?_, List.pairwise_iff_forall_sublist.2 ?_⟩
    · split
      · exact List.pairwise_singleton _ k
      · exact ih k
    · exact fun hsub x hx y hy => .inr ⟨c, _, _, hsub, h.below_of_mem hx, h.below_of_mem hy⟩

/-- Where a way down parts, nothing further down is above both ends. -/
theorem not_both (hc : c ∈ d.childrenOf n) (hc' : b ∈ d.childrenOf n) (hne : c ≠ b)
    (hx : x = c ∨ d.Below c x) (hy : y = b ∨ d.Below b y) (hm : d.Below n m)
    (hmx : x = m ∨ d.Below m x) (hmy : y = m ∨ d.Below m y) : False := by
  obtain ⟨k, hk, hkm⟩ := Relation.TransGen.head'_iff.1 hm
  have hdown : ∀ {z}, (z = m ∨ d.Below m z) → z = k ∨ d.Below k z := by
    rintro z (rfl | hz)
    · exact (Relation.reflTransGen_iff_eq_or_transGen.1 hkm).imp_left id
    · exact .inr (Relation.TransGen.trans_right hkm hz)
  exact hne ((h.child_eq hc hk hx (hdown hmx)).trans (h.child_eq hc' hk hy (hdown hmy)).symm)

/-- No two nodes come in front of each other. -/
theorem before_asymm (hxy : d.Before x y) : ¬d.Before y x := by
  have hsplit : ∀ {n c b}, [c, b].Sublist (d.childrenOf n) →
      c ∈ d.childrenOf n ∧ b ∈ d.childrenOf n ∧ c < b := fun hsub =>
    ⟨hsub.subset List.mem_cons_self, hsub.subset (List.mem_cons_of_mem _ List.mem_cons_self),
      List.pairwise_iff_forall_sublist.1 (h.sorted _) hsub⟩
  have hbelow : ∀ {n c x}, c ∈ d.childrenOf n → (x = c ∨ d.Below c x) → d.Below n x := by
    rintro n c x hc (rfl | hx)
    · exact .single hc
    · exact .head hc hx
  intro hyx
  rcases hxy with hxy | ⟨n, c, b, hsub, hx, hy⟩
  · rcases hyx with hyx | ⟨n, c, b, hsub, hy, hx⟩
    · exact Nat.lt_asymm (h.lt_of_below hxy) (h.lt_of_below hyx)
    · obtain ⟨hc, hb, hlt⟩ := hsplit hsub
      exact h.not_both hc hb (Nat.ne_of_lt hlt) hy hx (hbelow hb hx) (.inr hxy) (.inl rfl)
  · obtain ⟨hc, hb, hlt⟩ := hsplit hsub
    rcases hyx with hyx | ⟨m, c', b', hsub', hy', hx'⟩
    · exact h.not_both hc hb (Nat.ne_of_lt hlt) hx hy (hbelow hb hy) (.inr hyx) (.inl rfl)
    · obtain ⟨hc', hb', hlt'⟩ := hsplit hsub'
      rcases h.below_total (hbelow hc hx) (hbelow hb' hx') with rfl | hnm | hmn
      · obtain rfl := h.child_eq hc hb' hx hx'
        obtain rfl := h.child_eq hb hc' hy hy'
        exact Nat.lt_asymm hlt hlt'
      · exact h.not_both hc hb (Nat.ne_of_lt hlt) hx hy hnm (.inr (hbelow hb' hx'))
          (.inr (hbelow hc' hy'))
      · exact h.not_both hc' hb' (Nat.ne_of_lt hlt') hy' hx' hmn (.inr (hbelow hb hy))
          (.inr (hbelow hc hx))

end Formed

/-- Calls on elements leave a forest: links up and down are inverse to each other, no node is among
the children of one twice, a way up ends and comes past just the nodes that have a way down, and a
walk lists the outermost places below a node once each, in the order of the document, in which no
two nodes come in front of each other. -/
theorem forest_of_reached (h : Reached d replaced) :
    (∀ n c, c ∈ d.childrenOf n ↔ d.parentOf? c = some n) ∧ (∀ n, (d.childrenOf n).Nodup) ∧
    (∀ a n, Climbs d a n (d.contains a n) ∧ (d.contains a n = true ↔ n = a ∨ d.Below a n)) ∧
    (∀ x y, d.Before x y → ¬d.Before y x) ∧
    ∀ c, (d.placeholders c).Nodup ∧ (d.placeholders c).Pairwise d.Before ∧
      ∀ n, n ∈ d.placeholders c ↔ d.isPlaceholder n = true ∧ d.Below c n ∧
        ∀ m, d.Below c m → d.Below m n → d.isPlaceholder m = false := by
  have hforest := h.forest
  refine ⟨fun n c => ⟨fun hc => (hforest.child hc).2, hforest.linked⟩, fun n => ?_, fun a n => ?_,
    fun _ _ => hforest.before_asymm, fun c => ⟨hforest.nodup_placeholders c,
      hforest.pairwise_placeholdersWithin _ c, fun n => ?_⟩⟩
  · exact (hforest.sorted n).imp Nat.ne_of_lt
  · exact ⟨hforest.climbs_contains a n, hforest.contains_iff⟩
  · exact hforest.mem_placeholders_iff

/-- Two places of islands, one of them in a paragraph that has been emptied before. -/
def shelf : List Call :=
  [.container "shelf", .element (some 0) "p", .placeholder 1 "first" "Button", .setInnerHtml 1 "",
    .placeholder 1 "second" "Button", .placeholder 0 "third" "Button"]

/-- On the shelf the place that is gone is not found any more, and the other two are found in
order. -/
theorem forest_shelf : ∃ d replaced, d = shelf.foldl Call.apply {} ∧ Reached d replaced ∧
    d.contains 1 2 = false ∧ d.placeholders 0 = [3, 4] ∧ d.Before 3 4 ∧ ¬d.Before 4 3 := by
  obtain ⟨replaced, h⟩ := Reached.empty.foldl shelf (by decide)
  obtain ⟨-, -, -, hasymm, hplaces⟩ := forest_of_reached h
  have hwalk : (shelf.foldl Call.apply {}).placeholders 0 = [3, 4] := by decide
  have hbefore : (shelf.foldl Call.apply {}).Before 3 4 :=
    List.rel_of_pairwise_cons (hwalk ▸ (hplaces 0).2.1) (List.mem_singleton_self 4)
  exact ⟨_, replaced, rfl, h, by decide, hwalk, hbefore, hasymm 3 4 hbefore⟩

/-! ## What has been replaced -/

/-- The node has been replaced, or has been hung below what has been. -/
def Discarded (d : Document) (replaced : NodeId → Prop) (n : NodeId) : Prop :=
  ∃ m, replaced m ∧ (n = m ∨ d.Below m n)

namespace Forest

variable (h : Forest d replaced)
include h

/-- What is above a node with a way from the top has one too. -/
theorem rooted_of_below (hr : d.Rooted n) (hb : d.Below m n) : d.Rooted m := by
  induction hr with
  | root hr =>
    obtain ⟨p, hp⟩ := h.exists_parent hb
    exact nomatch (h.top _ hr).2.symm.trans hp
  | child hr hc ih => exact (h.below_parent hc hb).elim (fun he => he ▸ hr) ih

/-- From the top there are ways to all that has not been replaced, and to nothing else. -/
theorem rooted_iff (hn : n < d.nodes.size) : d.Rooted n ↔ ¬d.Discarded replaced n := by
  constructor
  · rintro hr ⟨m, hm, rfl | hb⟩
    · exact h.apart _ hm hr
    · exact h.apart m hm (h.rooted_of_below hr hb)
  · -- up to a node without a parent, which is at the top or has been cut off
    intro hnot
    induction n using Nat.strongRecOn with
    | ind n ih =>
      cases hp : d.parentOf? n with
      | none =>
        rcases h.covered n hn hp with hr | hm
        · exact .root hr
        · exact absurd ⟨n, hm, .inl rfl⟩ hnot
      | some p =>
        have hc := h.linked hp
        have hlt := (h.child hc).1
        refine .child (ih p hlt (hlt.trans hn) fun ⟨m, hm, hmp⟩ => hnot ⟨m, hm, .inr ?_⟩) hc
        rcases hmp with rfl | hb
        · exact .single hc
        · exact hb.tail hc

end Forest

theorem byId?_eq_some_iff {id : String} :
    d.byId? id = some n ↔ d.attr? n "id" = some id ∧ ∀ m < n, d.attr? m "id" ≠ some id := by
  refine ⟨fun hfound => ?_, fun h => byId?_eq_some h.1 h.2⟩
  have hid : d.attr? n "id" = some id := by
    obtain ⟨hn, hid, -⟩ := Array.findIdx?_eq_some_iff_getElem.1 hfound
    exact Option.bind_eq_some_iff.2 ⟨_, Array.getElem?_eq_getElem hn, of_decide_eq_true hid⟩
  refine ⟨hid, fun m hm hmid => ?_⟩
  obtain ⟨hn, -, hfirst⟩ := Array.findIdx?_eq_some_iff_getElem.1 hfound
  obtain ⟨x, hx, hxid⟩ := Option.bind_eq_some_iff.1 hmid
  obtain ⟨hlt, rfl⟩ := Array.getElem?_eq_some_iff.1 hx
  exact hfirst m hm (decide_eq_true hxid)

/-- A search for an id leads to what has not been replaced, and so do walks below what is found and
ways up to it, just if whatever has been replaced shares its id with a node in front of it that has
not. -/
theorem rooted_byId?_iff (h : Reached d replaced) :
    (∀ id n, d.byId? id = some n → d.Rooted n ∧ (∀ m ∈ d.placeholders n, d.Rooted m) ∧
      ∀ m, d.contains n m = true → d.Rooted m) ↔
    ∀ id n, d.attr? n "id" = some id → d.Discarded replaced n →
      ∃ m < n, d.attr? m "id" = some id ∧ ¬d.Discarded replaced m := by
  have hforest := h.forest
  have hrooted : ∀ {id n}, d.attr? n "id" = some id → (d.Rooted n ↔ ¬d.Discarded replaced n) :=
    fun hid => by
      obtain ⟨x, hx, -⟩ := Option.bind_eq_some_iff.1 hid
      exact hforest.rooted_iff (Array.getElem?_eq_some_iff.1 hx).1
  have hdown : ∀ {n m}, d.Rooted n → d.Below n m → d.Rooted m := fun hn hb => by
    induction hb with
    | single hc => exact hn.child hc
    | tail _ hc ih => exact ih.child hc
  constructor
  · intro hsearch id n hid hdiscarded
    obtain ⟨m, hm⟩ := Option.ne_none_iff_exists'.1 fun hnone => attr?_ne_of_byId? hnone n hid
    obtain ⟨hmid, hfirst⟩ := byId?_eq_some_iff.1 hm
    have hfound := (hrooted hmid).1 (hsearch id m hm).1
    refine ⟨m, Nat.lt_of_le_of_ne (Nat.le_of_not_lt fun hlt => hfirst n hlt hid) ?_, hmid, hfound⟩
    rintro rfl
    exact hfound hdiscarded
  · intro hshared id n hfound
    obtain ⟨hid, hfirst⟩ := byId?_eq_some_iff.1 hfound
    have hn : d.Rooted n := (hrooted hid).2 fun hdiscarded => by
      obtain ⟨m, hlt, hmid, -⟩ := hshared id n hid hdiscarded
      exact hfirst m hlt hmid
    refine ⟨hn, fun m hm => hdown hn (hforest.mem_placeholders_iff.1 hm).2.1, fun m hm => ?_⟩
    rcases hforest.contains_iff.1 hm with rfl | hb
    · exact hn
    · exact hdown hn hb

/-- An element with an id that stands in front of it as well, replaced by nothing. -/
def doubled : List Call :=
  [.container "x", .container "r", .element (some 1) "div", .setAttr 2 "id" "x", .setInnerHtml 1 ""]

/-- The container is found by the id, since it came first. The element with the id has been
discarded. -/
theorem rooted_byId?_doubled : ∃ d replaced, d = doubled.foldl Call.apply {} ∧ Reached d replaced ∧
    d.attr? 2 "id" = some "x" ∧ ∀ n, d.byId? "x" = some n → d.Rooted n := by
  obtain ⟨replaced, h⟩ := Reached.empty.foldl doubled (by decide)
  have hkept : ∀ n ∈ (doubled.foldl Call.apply {}).roots, ¬Discarded _ replaced n := fun n hn =>
    (h.forest.rooted_iff (h.forest.top n hn).1).1 (.root hn)
  refine ⟨_, replaced, rfl, h, by decide, fun n hfound => ?_⟩
  refine ((rooted_byId?_iff h).2 (fun id n hid hdiscarded => ?_) "x" n hfound).1
  have hlast : n = 2 := by
    obtain ⟨x, hx, -⟩ := Option.bind_eq_some_iff.1 hid
    have hn : n < 3 := (Array.getElem?_eq_some_iff.1 hx).1
    have hroots : n ∉ (doubled.foldl Call.apply {}).roots := fun hn => hkept n hn hdiscarded
    have hroots : n ∉ [0, 1] := hroots
    grind
  subst hlast
  have hx : (doubled.foldl Call.apply {}).attr? 2 "id" = some "x" := by decide
  obtain rfl : "x" = id := Option.some.inj (hx.symm.trans hid)
  exact ⟨0, by decide, by decide, hkept 0 (by decide)⟩

/-- An element with an id, replaced by nothing. -/
def emptied : List Call :=
  [.container "r", .element (some 0) "div", .setAttr 1 "id" "x", .setInnerHtml 0 ""]

/-- The element is found all the same, with no way from the top. -/
theorem not_rooted_byId?_emptied : ¬∀ d replaced, Reached d replaced →
    ∀ id n, d.byId? id = some n → d.Rooted n := by
  intro hall
  obtain ⟨replaced, h⟩ := Reached.empty.foldl emptied (by decide)
  cases hall _ _ h "x" 1 (by decide +kernel) with
  | root hr => exact absurd hr (by decide)
  | child _ hc =>
    have hup : (emptied.foldl Call.apply {}).parentOf? 1 = none := by decide
    exact nomatch hup.symm.trans (h.forest.child hc).2

end Document

end Archipelago
