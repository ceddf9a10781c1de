import Archipelago.Document
import Archipelago.Proofs.Basics

/-!
# What becomes of a document

The operations on a document work on one element each, and on the links up to it. All else of a
document is kept: what an element shows outlasts all work on other elements.
-/

namespace Archipelago

theorem Dict.get?_erase {α : Type} (d : Dict α) (name other : String) :
    get? (erase d name) other = if name = other then none else get? d other := by
  induction d with
  | nil => simp [erase]
  | cons e d ih =>
    obtain ⟨k, x⟩ := e
    unfold erase at ih ⊢
    by_cases hk : k = name
    · subst hk
      by_cases ho : k = other
      · simpa [ho] using ih
      · simpa [ho, get?] using ih
    · by_cases ho : name = other
      · subst ho
        simpa [hk, get?] using ih
      · by_cases hko : k = other
        · subst hko
          simp [hk, get?, ho]
        · simpa [hk, hko, get?, ho] using ih

namespace DocumentNode

/-- A node without the link up to its parent. -/
def core (x : DocumentNode) : DocumentNode := x.setParent none

/-- Is a node markup, and no element? -/
def isHtml : DocumentNode → Bool
  | element .. => false
  | html .. => true

@[simp] theorem core_setParent (x : DocumentNode) (parent : Option NodeId) :
    (x.setParent parent).core = x.core := by cases x <;> rfl

@[simp] theorem core_mapAttributes (x : DocumentNode) (f : Dict String → Dict String) :
    (x.mapAttributes f).core = x.core.mapAttributes f := by cases x <;> rfl

@[simp] theorem core_setChildren (x : DocumentNode) (children : List NodeId) :
    (x.setChildren children).core = x.core.setChildren children := by cases x <;> rfl

@[simp] theorem core_addChild (x : DocumentNode) (child : NodeId) :
    (x.addChild child).core = x.core.addChild child := by cases x <;> rfl

@[simp] theorem attributes_core (x : DocumentNode) : x.core.attributes = x.attributes := by
  cases x <;> rfl

theorem mapAttributes_of_isHtml {x : DocumentNode} (h : x.isHtml) (f : Dict String → Dict String) :
    x.mapAttributes f = x := by
  cases x with
  | element => contradiction
  | html => rfl

end DocumentNode

namespace Document

open DocumentNode (core)

/-- A node of the document, without the link up to its parent. -/
def core? (d : Document) (n : NodeId) : Option DocumentNode := (d.node? n).map core

variable {d d' : Document} {n m : NodeId}

/-- Work on a node is seen at that node only. -/
theorem core?_modify (d : Document) (n m : NodeId) {f g : DocumentNode → DocumentNode}
    (h : ∀ x, (f x).core = g x.core) :
    (d.modify n f).core? m = if n = m then (d.core? m).map g else d.core? m := by
  unfold core? modify node?
  rw [Array.getElem?_modify]
  split
  · cases d.nodes[m]? with
    | none => rfl
    | some x => simp [h]
  · rfl

theorem attr?_eq (d : Document) (n : NodeId) (name : String) :
    d.attr? n name = (d.core? n).bind fun x => Dict.get? x.attributes name := by
  unfold attr? core?
  cases d.node? n <;> simp

/-! ## Work on one element -/

/-- Work on an element keeps all other nodes, and all markup. -/
def Keeps (n : NodeId) (d d' : Document) : Prop :=
  ∀ m x, d.core? m = some x → m ≠ n ∨ x.isHtml = true → d'.core? m = some x

theorem Keeps.refl (n : NodeId) (d : Document) : Keeps n d d := fun _ _ h _ => h

theorem Keeps.trans {d'' : Document} (h : Keeps n d d') (h' : Keeps n d' d'') : Keeps n d d'' :=
  fun m x hx hm => h' m x (h m x hx hm) hm

/-- The attributes of other nodes are as before. -/
theorem Keeps.attr? (h : Keeps n d d') (hm : m ≠ n) {name value : String}
    (ha : d.attr? m name = some value) : d'.attr? m name = some value := by
  rw [attr?_eq] at ha ⊢
  obtain ⟨x, hx, hv⟩ := Option.bind_eq_some_iff.1 ha
  rw [h m x hx (.inl hm)]
  exact hv

/-- Attributes are set and removed on elements only. -/
theorem keeps_mapAttributes (d : Document) (n : NodeId) (f : Dict String → Dict String) :
    Keeps n d (d.modify n (·.mapAttributes f)) := by
  intro m x hx hm
  rw [core?_modify (g := (·.mapAttributes f)) _ _ _ fun x => x.core_mapAttributes f, hx]
  split
  · rename_i he
    rcases hm with hne | hhtml
    · exact absurd he.symm hne
    · rw [Option.map_some, DocumentNode.mapAttributes_of_isHtml hhtml]
  · rfl

theorem keeps_setAttr (d : Document) (n : NodeId) (name value : String) :
    Keeps n d (d.setAttr n name value) := keeps_mapAttributes d n _

theorem keeps_removeAttr (d : Document) (n : NodeId) (name : String) :
    Keeps n d (d.removeAttr n name) := keeps_mapAttributes d n _

/-- An element, with its attributes and its children. -/
def HasElement (d : Document) (n : NodeId) (attributes : Dict String) (children : List NodeId) :
    Prop :=
  ∃ tag, d.core? n = some (.element tag attributes children none)

theorem HasElement.attr? {attributes : Dict String} {children : List NodeId}
    (h : d.HasElement n attributes children) (name : String) :
    d.attr? n name = Dict.get? attributes name := by
  obtain ⟨tag, hx⟩ := h
  rw [attr?_eq, hx]
  rfl

/-- Only elements have attributes. -/
theorem hasElement_of_attr? {name value : String} (h : d.attr? n name = some value) :
    ∃ attributes children, d.HasElement n attributes children := by
  rw [attr?_eq] at h
  obtain ⟨x, hx, hv⟩ := Option.bind_eq_some_iff.1 h
  cases hnode : d.node? n with
  | none => simp [core?, hnode] at hx
  | some y =>
    obtain rfl : y.core = x := by simpa [core?, hnode] using hx
    cases y with
    | element tag attributes children parent =>
      refine ⟨attributes, children, tag, hx⟩
    | html text parent =>
      rw [DocumentNode.attributes_core] at hv
      cases hv

/-- Work on its attributes leaves an element with its children. -/
theorem HasElement.mapAttributes {attributes : Dict String} {children : List NodeId}
    (h : d.HasElement n attributes children) (f : Dict String → Dict String) :
    (d.modify n (·.mapAttributes f)).HasElement n (f attributes) children := by
  obtain ⟨tag, hx⟩ := h
  refine ⟨tag, ?_⟩
  rw [core?_modify (g := (·.mapAttributes f)) _ _ _ fun x => x.core_mapAttributes f, if_pos rfl, hx]
  rfl

/-- An attribute that is set is found, and all others are as before. -/
theorem HasElement.attr?_setAttr {attributes : Dict String} {children : List NodeId}
    (h : d.HasElement n attributes children) (name value other : String) :
    (d.setAttr n name value).attr? n other =
      if name = other then some value else d.attr? n other := by
  rw [setAttr, (h.mapAttributes _).attr?, h.attr?, Dict.get?_insert]

theorem attr?_modify (d : Document) (n m : NodeId) (f : Dict String → Dict String) (name : String) :
    (d.modify n (·.mapAttributes f)).attr? m name =
      if n = m then (d.core? m).bind fun x => Dict.get? (x.mapAttributes f).attributes name
      else d.attr? m name := by
  rw [attr?_eq, attr?_eq, core?_modify (g := (·.mapAttributes f)) _ _ _ fun x =>
    x.core_mapAttributes f]
  split
  · rw [Option.bind_map]
    rfl
  · rfl

/-- Any other attribute, or one of another node, is as before. -/
theorem attr?_setAttr_of_ne (d : Document) {n m : NodeId} {name other : String}
    (h : n = m → name ≠ other) (value : String) :
    (d.setAttr n name value).attr? m other = d.attr? m other := by
  rw [setAttr, attr?_modify, attr?_eq]
  split
  · rename_i hn
    refine congrArg _ (funext fun x => ?_)
    cases x with
    | element tag attributes children parent =>
      exact (Dict.get?_insert _ _ _ _).trans (if_neg (h hn))
    | html => rfl
  · rfl

/-- An attribute that is removed is not found, and all others are as before. -/
theorem attr?_removeAttr (d : Document) (n m : NodeId) (name other : String) :
    (d.removeAttr n name).attr? m other =
      if n = m ∧ name = other then none else d.attr? m other := by
  rw [removeAttr, attr?_modify, attr?_eq]
  by_cases hn : n = m
  · by_cases hname : name = other
    · rw [if_pos hn, if_pos ⟨hn, hname⟩, Option.bind_eq_none_iff]
      rintro (x | x) -
      · exact (Dict.get?_erase _ _ _).trans (if_pos hname)
      · rfl
    · rw [if_pos hn, if_neg fun h => hname h.2]
      refine congrArg _ (funext fun x => ?_)
      cases x with
      | element tag attributes children parent =>
        exact (Dict.get?_erase _ _ _).trans (if_neg hname)
      | html => rfl
  · rw [if_neg hn, if_neg fun h => hn h.1]

/-! ## What an element shows -/

/-- An element holds one piece of markup, or nothing. -/
def Shows (d : Document) (n : NodeId) (html : String) : Prop :=
  ∃ attributes children, d.HasElement n attributes children ∧
    (html = "" ∧ children = [] ∨ ∃ c, children = [c] ∧ d.core? c = some (.html html none))

theorem core?_html {html : String} (h : d.core? n = some (.html html none)) :
    ∃ parent, d.node? n = some (.html html parent) := by
  unfold core? at h
  obtain ⟨x, hx, he⟩ := Option.map_eq_some_iff.1 h
  cases x with
  | element => cases he
  | html text parent =>
    obtain rfl : text = html := by simpa [core, DocumentNode.setParent] using he
    exact ⟨parent, hx⟩

/-- What an element shows is its markup. -/
theorem Shows.innerHtml {html : String} (h : d.Shows n html) : d.innerHtml n = html := by
  obtain ⟨attributes, children, ⟨tag, hx⟩, hc⟩ := h
  obtain ⟨x, hnode, hcore⟩ := Option.map_eq_some_iff.1 hx
  cases x with
  | html => cases hcore
  | element tag' attributes' children' parent =>
    obtain rfl : children' = children := by
      simpa [core, DocumentNode.setParent] using (DocumentNode.element.inj hcore).2.2.1
    simp only [Document.innerHtml, hnode]
    rcases hc with ⟨rfl, rfl⟩ | ⟨c, rfl, hchild⟩
    · rfl
    · obtain ⟨parent', hp⟩ := core?_html hchild
      simp [outerHtml, outerHtmlWithin, hp, String.join]

/-- What an element shows outlasts work on another one. -/
theorem Shows.of_keeps {html : String} (h : d.Shows m html) (hk : Keeps n d d') (hm : m ≠ n) :
    d'.Shows m html := by
  obtain ⟨attributes, children, ⟨tag, hx⟩, hc⟩ := h
  refine ⟨attributes, children, ⟨tag, hk m _ hx (.inl hm)⟩, ?_⟩
  rcases hc with hc | ⟨c, rfl, hchild⟩
  · exact .inl hc
  · exact .inr ⟨c, rfl, hk c _ hchild (.inr rfl)⟩

/-- Attributes do not count for what an element shows. -/
theorem Shows.mapAttributes {html : String} (h : d.Shows n html)
    (f : Dict String → Dict String) : (d.modify n (·.mapAttributes f)).Shows n html := by
  obtain ⟨attributes, children, he, hc⟩ := h
  refine ⟨f attributes, children, he.mapAttributes f, ?_⟩
  rcases hc with hc | ⟨c, rfl, hchild⟩
  · exact .inl hc
  · exact .inr ⟨c, rfl, keeps_mapAttributes d n f c _ hchild (.inr rfl)⟩

/-- Attributes do not change what an element shows. -/
theorem Shows.setAttr {html : String} (h : d.Shows m html) (n : NodeId) (name value : String) :
    (d.setAttr n name value).Shows m html := by
  by_cases he : m = n
  · exact he ▸ h.mapAttributes _
  · exact h.of_keeps (keeps_setAttr d n name value) he

theorem Shows.removeAttr {html : String} (h : d.Shows m html) (n : NodeId) (name : String) :
    (d.removeAttr n name).Shows m html := by
  by_cases he : m = n
  · exact he ▸ h.mapAttributes _
  · exact h.of_keeps (keeps_removeAttr d n name) he

/-! ## New content -/

/-- To cut children off changes no more than links upwards. -/
theorem core?_cutOff (d : Document) (children : List NodeId) (m : NodeId) :
    (children.foldl (fun d c => d.modify c (·.setParent none)) d).core? m = d.core? m := by
  induction children generalizing d with
  | nil => rfl
  | cons c children ih =>
    rw [List.foldl_cons, ih, core?_modify (g := id) _ _ _ fun x => x.core_setParent none]
    simp

theorem core?_push (d : Document) (x : DocumentNode) (roots : List NodeId) (m : NodeId) :
    Document.core? ⟨d.nodes.push x, roots⟩ m =
      if m = d.nodes.size then some x.core else d.core? m := by
  unfold core? node?
  rw [Array.getElem?_push]
  split
  · rfl
  · rfl

/-- A new node that hangs below one of the others. -/
theorem core?_add (d : Document) {x : DocumentNode} {parent : NodeId} (hx : x.parent? = some parent)
    (hp : parent < d.nodes.size) (m : NodeId) :
    (d.add x).1.core? m =
      if parent = m then (d.core? m).map (·.addChild d.nodes.size)
      else if m = d.nodes.size then some x.core else d.core? m := by
  have hadd : (d.add x).1 = Document.modify { d with nodes := d.nodes.push x } parent
      (·.addChild d.nodes.size) := by
    simp only [add, hx]
  rw [hadd, core?_modify (g := (·.addChild d.nodes.size)) _ _ _ fun x => x.core_addChild _,
    core?_push]
  split
  · rename_i he
    subst he
    rw [if_neg (Nat.ne_of_lt hp)]
  · rfl

/-- New markup is the last child of its parent. -/
theorem core?_addHtml (d : Document) (parent m : NodeId) (html : String)
    (hp : parent < d.nodes.size) :
    (d.addHtml parent html).1.core? m =
      if parent = m then (d.core? m).map (·.addChild d.nodes.size)
      else if m = d.nodes.size then some (.html html none) else d.core? m :=
  core?_add d rfl hp m

theorem lt_size_of_core? {x : DocumentNode} (h : d.core? n = some x) : n < d.nodes.size := by
  obtain ⟨y, hy, -⟩ := Option.map_eq_some_iff.1 h
  exact (Array.getElem?_eq_some_iff.1 hy).1

/-- Children that are cut off stay where they are kept. -/
theorem size_cutOff (d : Document) (children : List NodeId) :
    (children.foldl (fun d c => d.modify c (·.setParent none)) d).nodes.size = d.nodes.size := by
  induction children generalizing d with
  | nil => rfl
  | cons c children ih =>
    rw [List.foldl_cons, ih]
    exact Array.size_modify

/-- The document with all children of an element cut off. -/
def cleared (d : Document) (n : NodeId) : Document :=
  (d.childrenOf n).foldl (fun d c => d.modify c (·.setParent none)) (d.modify n (·.setChildren []))

theorem size_cleared (d : Document) (n : NodeId) : (d.cleared n).nodes.size = d.nodes.size :=
  (size_cutOff _ _).trans Array.size_modify

/-- An element that is cleared has no children. -/
theorem core?_cleared (d : Document) (n m : NodeId) :
    (d.cleared n).core? m = if n = m then (d.core? m).map (·.setChildren []) else d.core? m := by
  unfold cleared
  rw [core?_cutOff, core?_modify (g := (·.setChildren [])) _ _ _ fun x => x.core_setChildren []]

/-- What is put into an element comes after it has been cleared. -/
theorem setInnerHtml_of_node? {tag : String} {attributes : Dict String} {children : List NodeId}
    {parent : Option NodeId} (h : d.node? n = some (.element tag attributes children parent))
    (html : String) :
    d.setInnerHtml n html =
      if html = "" then d.cleared n else ((d.cleared n).addHtml n html).1 := by
  have hchildren : d.childrenOf n = children := by
    unfold childrenOf
    rw [h]
    rfl
  unfold cleared
  rw [hchildren]
  simp only [setInnerHtml, h]

/-- New markup in an element keeps all other nodes and all other markup. Markup is no element, so a
node of it is another one than the element. -/
theorem keeps_setInnerHtml (d : Document) (n : NodeId) (html : String) :
    Keeps n d (d.setInnerHtml n html) := by
  cases hn : d.node? n with
  | none => simpa only [setInnerHtml, hn] using Keeps.refl n d
  | some x =>
    cases x with
    | html text parent => simpa only [setInnerHtml, hn] using Keeps.refl n d
    | element tag attributes children parent =>
      have hdn : d.core? n = some (.element tag attributes children none) := by
        simp [core?, hn, core, DocumentNode.setParent]
      intro m y hy hm
      have hne : n ≠ m := by
        rintro rfl
        rcases hm with h | h
        · exact h rfl
        · obtain rfl : _ = y := Option.some.inj (hdn.symm.trans hy)
          contradiction
      have hem : (d.cleared n).core? m = some y := by rw [core?_cleared, if_neg hne, hy]
      rw [setInnerHtml_of_node? hn]
      split
      · exact hem
      · have hlt : n < (d.cleared n).nodes.size := size_cleared d n ▸ lt_size_of_core? hdn
        rw [core?_addHtml _ _ _ _ hlt, if_neg hne, if_neg (Nat.ne_of_lt (lt_size_of_core? hem)),
          hem]

/-- An element shows what has been put into it, and keeps its attributes. -/
theorem HasElement.setInnerHtml {attributes : Dict String} {children : List NodeId}
    (h : d.HasElement n attributes children) (html : String) :
    (d.setInnerHtml n html).Shows n html ∧
      ∀ name, (d.setInnerHtml n html).attr? n name = d.attr? n name := by
  obtain ⟨tag, hx⟩ := h
  obtain ⟨x, hnode, hcore⟩ := Option.map_eq_some_iff.1 hx
  cases x with
  | html => cases hcore
  | element tag' attributes' children' parent =>
    have hen : (d.cleared n).core? n = some (.element tag attributes [] none) := by
      rw [core?_cleared, if_pos rfl, hx]
      rfl
    have hlt : n < (d.cleared n).nodes.size := lt_size_of_core? hen
    have hd : d.HasElement n attributes children := ⟨tag, hx⟩
    rw [setInnerHtml_of_node? hnode]
    split
    · rename_i hempty
      have heln : (d.cleared n).HasElement n attributes [] := ⟨tag, hen⟩
      exact ⟨⟨attributes, [], heln, .inl ⟨hempty, rfl⟩⟩, fun name => by rw [heln.attr?, hd.attr?]⟩
    · have heln : ((d.cleared n).addHtml n html).1.HasElement n attributes
          [(d.cleared n).nodes.size] := by
        refine ⟨tag, ?_⟩
        rw [core?_addHtml _ _ _ _ hlt, if_pos rfl, hen]
        rfl
      refine ⟨⟨attributes, _, heln, .inr ⟨_, rfl, ?_⟩⟩, fun name => by rw [heln.attr?, hd.attr?]⟩
      rw [core?_addHtml _ _ _ _ hlt, if_neg (Nat.ne_of_lt hlt), if_pos rfl]

/-- New content comes without attributes, and changes none. -/
theorem attr?_setInnerHtml (d : Document) (n : NodeId) (html : String) (m : NodeId)
    (name : String) :
    (d.setInnerHtml n html).attr? m name = d.attr? m name := by
  cases hn : d.node? n with
  | none => simp only [setInnerHtml, hn]
  | some x =>
    cases x with
    | html => simp only [setInnerHtml, hn]
    | element tag attributes children parent =>
      have hcleared : (d.cleared n).attr? m name = d.attr? m name := by
        rw [attr?_eq, attr?_eq, core?_cleared]
        split
        · cases d.core? m with
          | none => rfl
          | some x => cases x <;> rfl
        · rfl
      have hlt : n < (d.cleared n).nodes.size := by
        obtain ⟨hlt, -⟩ := Array.getElem?_eq_some_iff.1 hn
        rwa [size_cleared]
      rw [setInnerHtml_of_node? hn]
      split
      · exact hcleared
      · rw [← hcleared, attr?_eq, attr?_eq, core?_addHtml _ _ _ _ hlt]
        split
        · cases (d.cleared n).core? m with
          | none => rfl
          | some x => cases x <;> rfl
        · split
          · rename_i hm
            have hnone : (d.cleared n).core? m = none := by
              simp [core?, node?, hm]
            rw [hnone]
            rfl
          · rfl

end Document

end Archipelago
