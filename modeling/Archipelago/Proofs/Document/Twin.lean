import Archipelago.Proofs.Document.Tree

/-!
# Two documents from one

Two documents come from the same one by work on the places that a walk has found. At some of these
places there has been work on the first document only. The other places hold the same in both: they
have been given the same content, or they still have the content that they had at first.
-/

namespace Archipelago

namespace Document

variable {d d' d'' : Document} {n m : NodeId}

/-! ## Nodes that are kept -/

/-- Such nodes are kept, and all markup. -/
def KeepsOn (S : NodeId → Prop) (d d' : Document) : Prop :=
  ∀ m x, d.core? m = some x → S m ∨ x.isHtml = true → d'.core? m = some x

theorem Keeps.on {S : NodeId → Prop} (h : Keeps n d d') (hS : ∀ m, S m → m ≠ n) :
    KeepsOn S d d' := fun m x hx hm => h m x hx (hm.imp (hS m) id)

namespace KeepsOn

variable {S T : NodeId → Prop}

theorem refl (S : NodeId → Prop) (d : Document) : KeepsOn S d d := fun _ _ h _ => h

theorem trans (h : KeepsOn S d d') (h' : KeepsOn S d' d'') : KeepsOn S d d'' :=
  fun m x hx hm => h' m x (h m x hx hm) hm

theorem mono (h : KeepsOn S d d') (hS : ∀ m, T m → S m) : KeepsOn T d d' :=
  fun m x hx hm => h m x hx (hm.imp (hS m) id)

theorem attr? (h : KeepsOn S d d') (hm : S m) {x : DocumentNode} (hx : d.core? m = some x)
    (name : String) : d'.attr? m name = d.attr? m name := by
  rw [attr?_eq, attr?_eq, hx, h m x hx (.inl hm)]

theorem shows (h : KeepsOn S d d') (hm : S m) {html : String} (hs : d.Shows m html) :
    d'.Shows m html := by
  obtain ⟨attributes, children, ⟨tag, hx⟩, hc⟩ := hs
  refine ⟨attributes, children, ⟨tag, h m _ hx (.inl hm)⟩, ?_⟩
  rcases hc with hc | ⟨c, rfl, hchild⟩
  · exact .inl hc
  · exact .inr ⟨c, rfl, h c _ hchild (.inr rfl)⟩

end KeepsOn

theorem size_setAttr (d : Document) (n : NodeId) (name value : String) :
    (d.setAttr n name value).nodes.size = d.nodes.size := Array.size_modify

theorem size_le_setInnerHtml (d : Document) (n : NodeId) (html : String) :
    d.nodes.size ≤ (d.setInnerHtml n html).nodes.size := by
  have hcleared := (size_cleared d n).ge
  rw [setInnerHtml_eq]
  split
  · split
    · exact hcleared
    · exact hcleared.trans ((Nat.le_succ _).trans (size_add _ _).ge)
  · exact Nat.le_refl _

/-! ## Work on places -/

/-- A document that comes from another one by work on places, which are still places of the same
islands. -/
structure Reworked (places : List NodeId) (d₀ d : Document) : Prop where
  size : d₀.nodes.size ≤ d.nodes.size
  kept : KeepsOn (· ∉ places) d₀ d
  named : ∀ n ∈ places, ∃ id, d₀.attr? n Page.islandAttr = some id ∧
    d.attr? n Page.islandAttr = some id

namespace Reworked

variable {places : List NodeId} {d₀ : Document}

theorem exists_core? (h : Reworked places d₀ d) (hn : n ∈ places) : ∃ x, d.core? n = some x := by
  obtain ⟨id, -, hid⟩ := h.named n hn
  obtain ⟨_, _, tag, hx⟩ := hasElement_of_attr? hid
  exact ⟨_, hx⟩

theorem work (h : Reworked places d₀ d) (hn : n ∈ places) (hk : Keeps n d d')
    (hsize : d.nodes.size ≤ d'.nodes.size)
    (hname : d'.attr? n Page.islandAttr = d.attr? n Page.islandAttr) : Reworked places d₀ d' where
  size := h.size.trans hsize
  kept := h.kept.trans (hk.on fun m hm he => hm (he ▸ hn))
  named m hm := by
    obtain ⟨id, hid, hid'⟩ := h.named m hm
    refine ⟨id, hid, ?_⟩
    by_cases he : m = n
    · subst he
      exact hname.trans hid'
    · exact hk.attr? he hid'

theorem setAttr (h : Reworked places d₀ d) (hn : n ∈ places) {name : String}
    (hname : name ≠ Page.islandAttr) (value : String) :
    Reworked places d₀ (d.setAttr n name value) :=
  h.work hn (keeps_setAttr d n name value) (size_setAttr d n name value).ge
    (attr?_setAttr_of_ne d (fun _ => hname) value)

theorem setInnerHtml (h : Reworked places d₀ d) (hn : n ∈ places) (html : String) :
    Reworked places d₀ (d.setInnerHtml n html) :=
  h.work hn (keeps_setInnerHtml d n html) (size_le_setInnerHtml d n html)
    (attr?_setInnerHtml d n html n _)

/-- Nobody has worked on a node below which no place is. -/
theorem core?_below (h : Reworked places d₀ d) (hd₀ : d₀.Formed)
    (hbelow : ∀ x ∈ places, ¬d₀.Below n x) (hm : d₀.Below n m) : d.core? m = d₀.core? m := by
  have hlt : m < d₀.nodes.size := by
    cases hm with
    | single hc => exact lt_size_of_parentOf? (hd₀.child hc).2
    | tail _ hc => exact lt_size_of_parentOf? (hd₀.child hc).2
  obtain ⟨x, hx⟩ := Document.exists_core? hlt
  rw [hx, h.kept m x hx (.inl fun hmem => hbelow m hmem hm)]

/-- A place that has its children still holds what it held at first. -/
theorem innerHtml_eq (h : Reworked places d₀ d) (hd₀ : d₀.Formed)
    (hapart : ∀ x ∈ places, ∀ y ∈ places, ¬d₀.Below x y) (hn : n ∈ places)
    (hchildren : d.childrenOf n = d₀.childrenOf n) : d.innerHtml n = d₀.innerHtml n := by
  obtain ⟨id, hid, hid'⟩ := h.named n hn
  obtain ⟨attributes, children, hbefore⟩ := hasElement_of_attr? hid
  obtain ⟨attributes', children', hafter⟩ := hasElement_of_attr? hid'
  obtain rfl : children' = children := by
    obtain ⟨tag, hx⟩ := hbefore
    obtain ⟨tag', hx'⟩ := hafter
    rw [childrenOf_eq d n hx', childrenOf_eq d₀ n hx] at hchildren
    exact hchildren
  exact hd₀.innerHtml_eq h.size hbefore hafter fun m => h.core?_below hd₀ (hapart n hn)

/-- So does an element that is no place and has none below it. -/
theorem innerHtml_outside (h : Reworked places d₀ d) (hd₀ : d₀.Formed) {attributes : Dict String}
    {children : List NodeId} (he : d₀.HasElement n attributes children) (hn : n ∉ places)
    (hbelow : ∀ x ∈ places, ¬d₀.Below n x) : d.innerHtml n = d₀.innerHtml n := by
  obtain ⟨tag, hx⟩ := id he
  exact hd₀.innerHtml_eq h.size he ⟨tag, h.kept n _ hx (.inl hn)⟩ fun m =>
    h.core?_below hd₀ hbelow

end Reworked

/-! ## Work on both documents -/

/-- Two documents that come from `d₀`. Work at places that are `barred` there has been on the first
one only, and none since it was `since`. -/
structure Twin (places : List NodeId) (barred : NodeId → Prop) (d₀ since d d' : Document) :
    Prop where
  left : Reworked places d₀ d
  right : Reworked places d₀ d'
  since : KeepsOn barred since d
  attrs : ∀ n ∈ places, ¬barred n → ∀ name, d'.attr? n name = d.attr? n name
  shown : ∀ n ∈ places, ¬barred n →
    d.childrenOf n = d₀.childrenOf n ∧ d'.childrenOf n = d₀.childrenOf n ∨
      ∃ html, d.Shows n html ∧ d'.Shows n html

namespace Twin

variable {places : List NodeId} {barred : NodeId → Prop} {d₀ since e e' : Document}

theorem refl {d₀ : Document} (hplaces : ∀ n ∈ places, ∃ id, d₀.attr? n Page.islandAttr = some id) :
    Twin places barred d₀ d₀ d₀ d₀ := by
  have h : Reworked places d₀ d₀ := by
    refine ⟨Nat.le_refl _, .refl _ d₀, fun n hn => ?_⟩
    obtain ⟨id, hid⟩ := hplaces n hn
    exact ⟨id, hid, hid⟩
  exact ⟨h, h, .refl _ d₀, fun _ _ _ _ => rfl, fun _ _ _ => .inl ⟨rfl, rfl⟩⟩

theorem childrenOf_of_keeps (hk : Keeps n d d') (hne : m ≠ n) {x : DocumentNode}
    (hx : d.core? m = some x) : d'.childrenOf m = d.childrenOf m := by
  rw [childrenOf_eq_core, childrenOf_eq_core, hx, hk m x hx (.inl hne)]

/-- The same work at a place that is not barred. -/
theorem both (h : Twin places barred d₀ since d d') (hfree : ¬barred n) (hk : Keeps n d e)
    (hk' : Keeps n d' e') (hleft : Reworked places d₀ e)
    (hright : Reworked places d₀ e') (hattrs : ∀ name, e'.attr? n name = e.attr? n name)
    (hshown : e.childrenOf n = d₀.childrenOf n ∧ e'.childrenOf n = d₀.childrenOf n ∨
      ∃ html, e.Shows n html ∧ e'.Shows n html) : Twin places barred d₀ since e e' where
  left := hleft
  right := hright
  since := h.since.trans (hk.on fun m hm he => hfree (he ▸ hm))
  attrs m hm hmfree name := by
    by_cases he : m = n
    · exact he ▸ hattrs name
    · obtain ⟨x, hx⟩ := h.left.exists_core? hm
      obtain ⟨x', hx'⟩ := h.right.exists_core? hm
      rw [(hk.on (S := (· ≠ n)) fun _ => id).attr? he hx,
        (hk'.on (S := (· ≠ n)) fun _ => id).attr? he hx', h.attrs m hm hmfree]
  shown m hm hmfree := by
    by_cases he : m = n
    · exact he ▸ hshown
    · rcases h.shown m hm hmfree with ⟨hc, hc'⟩ | ⟨html, hs, hs'⟩
      · obtain ⟨x, hx⟩ := h.left.exists_core? hm
        obtain ⟨x', hx'⟩ := h.right.exists_core? hm
        exact .inl ⟨(childrenOf_of_keeps hk he hx).trans hc,
          (childrenOf_of_keeps hk' he hx').trans hc'⟩
      · exact .inr ⟨html, hs.of_keeps hk he, hs'.of_keeps hk' he⟩

theorem setAttr (h : Twin places barred d₀ since d d') (hn : n ∈ places) (hfree : ¬barred n)
    {name : String} (hname : name ≠ Page.islandAttr) (value : String) :
    Twin places barred d₀ since (d.setAttr n name value) (d'.setAttr n name value) := by
  obtain ⟨id, -, hid⟩ := h.left.named n hn
  obtain ⟨id', -, hid'⟩ := h.right.named n hn
  obtain ⟨_, _, helement⟩ := hasElement_of_attr? hid
  obtain ⟨_, _, helement'⟩ := hasElement_of_attr? hid'
  have hchildren : ∀ e : Document, (e.setAttr n name value).childrenOf n = e.childrenOf n :=
    fun e => childrenOf_modify e n n fun x => by cases x <;> rfl
  refine h.both hfree (keeps_setAttr d n name value) (keeps_setAttr d' n name value)
    (h.left.setAttr hn hname value) (h.right.setAttr hn hname value) (fun other => ?_) ?_
  · rw [helement.attr?_setAttr, helement'.attr?_setAttr, h.attrs n hn hfree]
  · rw [hchildren, hchildren]
    refine (h.shown n hn hfree).imp_right ?_
    rintro ⟨html, hs, hs'⟩
    exact ⟨html, hs.setAttr n name value, hs'.setAttr n name value⟩

theorem setInnerHtml (h : Twin places barred d₀ since d d') (hn : n ∈ places) (hfree : ¬barred n)
    (html : String) :
    Twin places barred d₀ since (d.setInnerHtml n html) (d'.setInnerHtml n html) := by
  obtain ⟨id, -, hid⟩ := h.left.named n hn
  obtain ⟨id', -, hid'⟩ := h.right.named n hn
  obtain ⟨_, _, helement⟩ := hasElement_of_attr? hid
  obtain ⟨_, _, helement'⟩ := hasElement_of_attr? hid'
  refine h.both hfree (keeps_setInnerHtml d n html) (keeps_setInnerHtml d' n html)
    (h.left.setInnerHtml hn html) (h.right.setInnerHtml hn html) (fun name => ?_)
    (.inr ⟨html, (helement.setInnerHtml html).1, (helement'.setInnerHtml html).1⟩)
  rw [attr?_setInnerHtml, attr?_setInnerHtml, h.attrs n hn hfree]

/-- Work at a place that is barred, on the first document. -/
theorem one (h : Twin places barred d₀ since d d') (hbarred : barred n) (hk : Keeps n d e)
    (hleft : Reworked places d₀ e) : Twin places barred d₀ e e d' where
  left := hleft
  right := h.right
  since := .refl _ e
  attrs m hm hmfree name := by
    obtain ⟨x, hx⟩ := h.left.exists_core? hm
    have hne : m ≠ n := fun he => hmfree (he ▸ hbarred)
    rw [h.attrs m hm hmfree, (hk.on (S := (· ≠ n)) fun _ => id).attr? hne hx]
  shown m hm hmfree := by
    have hne : m ≠ n := fun he => hmfree (he ▸ hbarred)
    rcases h.shown m hm hmfree with ⟨hc, hc'⟩ | ⟨html, hs, hs'⟩
    · obtain ⟨x, hx⟩ := h.left.exists_core? hm
      exact .inl ⟨(childrenOf_of_keeps hk hne hx).trans hc, hc'⟩
    · exact .inr ⟨html, hs.of_keeps hk hne, hs'⟩

/-- From here on the barred places count that have been worked on before. -/
theorem rebase (h : Twin places barred d₀ since d d') : Twin places barred d₀ d d d' :=
  ⟨h.left, h.right, .refl _ d, h.attrs, h.shown⟩

/-- Places that are not barred hold the same. -/
theorem innerHtml_eq (h : Twin places barred d₀ since d d') (hd₀ : d₀.Formed)
    (hapart : ∀ x ∈ places, ∀ y ∈ places, ¬d₀.Below x y) (hn : n ∈ places) (hfree : ¬barred n) :
    d'.innerHtml n = d.innerHtml n := by
  rcases h.shown n hn hfree with ⟨hc, hc'⟩ | ⟨html, hs, hs'⟩
  · rw [h.left.innerHtml_eq hd₀ hapart hn hc, h.right.innerHtml_eq hd₀ hapart hn hc']
  · rw [hs.innerHtml, hs'.innerHtml]

end Twin

end Document

end Archipelago
