import Archipelago.Proofs.Document.Mount
import Archipelago.Proofs.Page.Rereading
import Archipelago.Proofs.Page.Static
import Archipelago.Proofs.Value.Plain

/-!
# What a document shows of a page

A document writes every element with a closing tag, and it keeps what an island shows as it has been
written. So what it shows of a page differs from the markup of the page where there is an element
without a closing tag outside of the islands, and nowhere else.
-/

namespace Archipelago

namespace Page.Node

/-! ## Pages whose elements are all closed -/

mutual

/-- The markup of a page in which every element outside of islands has a closing tag. -/
def closedHtml : Node → String
  | text content => escapeText content
  | raw html => html
  | fragment children => closedHtmlAll children
  | element tag attributes children =>
    openTag tag attributes ++ closedHtmlAll children ++ closeTag tag
  | island id component children =>
    islandOpenTag id component ++ htmlAll children ++ closeTag "div"

/-- The same of a list of pieces. -/
def closedHtmlAll : List Node → String
  | [] => ""
  | n :: ns => closedHtml n ++ closedHtmlAll ns

end

theorem length_closeTag_pos (tag : String) : 0 < (closeTag tag).length := by
  rw [closeTag, String.length_append, String.length_append]
  exact Nat.lt_of_lt_of_le Nat.two_pos (Nat.le_trans (Nat.le_add_right _ _) (Nat.le_add_right _ _))

mutual

theorem length_html_le : (n : Node) → n.html.length ≤ n.closedHtml.length
  | text _ | raw _ | island .. => Nat.le_refl _
  | fragment children => length_htmlAll_le children
  | element tag attributes children => by
    have hchildren := length_htmlAll_le children
    rw [html, closedHtml]
    split
    all_goals
      simp only [String.length_append]
      omega

theorem length_htmlAll_le : (ns : List Node) → (htmlAll ns).length ≤ (closedHtmlAll ns).length
  | [] => Nat.le_refl _
  | n :: ns => by
    rw [htmlAll, closedHtmlAll, String.length_append, String.length_append]
    exact Nat.add_le_add (length_html_le n) (length_htmlAll_le ns)

end

/-- Where no part gets shorter, the whole stays the same only if each part does. -/
theorem append_eq_append_iff {s t s' t' : String} (hs : s.length ≤ s'.length)
    (ht : t.length ≤ t'.length) : s' ++ t' = s ++ t ↔ s' = s ∧ t' = t := by
  refine ⟨fun h => ?_, fun h => by rw [h.1, h.2]⟩
  have hlength := congrArg String.length h
  rw [String.length_append, String.length_append] at hlength
  have hlist := congrArg String.toList h
  rw [String.toList_append, String.toList_append] at hlist
  have hinj := List.append_inj hlist (by rw [String.length_toList, String.length_toList]; omega)
  exact ⟨String.toList_injective hinj.1, String.toList_injective hinj.2⟩

theorem not_contains_div : voidElements.contains "div" = false := by decide

/-- Every element outside of islands is one with a closing tag. -/
def Closes (n : Node) : Prop := ∀ e ∈ n.erased.elements, voidElements.contains e.1 = false

/-- The same of all the pieces of a list. -/
def ClosesAll (ns : List Node) : Prop :=
  ∀ e ∈ elementsAll (erasedAll ns), voidElements.contains e.1 = false

/-- The attributes of each element outside of islands have different names. -/
def Keyed (n : Node) : Prop := ∀ e ∈ n.erased.elements, (Dict.keys e.2).Nodup

/-- The same of all the pieces of a list. -/
def KeyedAll (ns : List Node) : Prop := ∀ e ∈ elementsAll (erasedAll ns), (Dict.keys e.2).Nodup

mutual

/-- To close every element makes a difference where one has no closing tag. -/
theorem closedHtml_eq_iff : (n : Node) → (n.closedHtml = n.html ↔ n.Closes)
  | text _ | raw _ => iff_of_true rfl (List.forall_mem_nil _)
  | island .. => iff_of_true rfl (List.forall_mem_singleton.2 not_contains_div)
  | fragment children => closedHtmlAll_eq_iff children
  | element tag attributes children => by
    have hsplit : (element tag attributes children).Closes ↔
        voidElements.contains tag = false ∧ ClosesAll children := List.forall_mem_cons
    rw [hsplit, html, closedHtml]
    cases hvoid : voidElements.contains tag with
    | true =>
      refine iff_of_false (fun h => ?_) fun h => Bool.false_ne_true h.1.symm
      have hlength := congrArg String.length h
      have hclose := length_closeTag_pos tag
      rw [if_pos rfl, String.length_append, String.length_append] at hlength
      omega
    | false =>
      rw [if_neg Bool.false_ne_true, String.append_left_inj, String.append_right_inj,
        closedHtmlAll_eq_iff children, and_iff_right rfl]

theorem closedHtmlAll_eq_iff : (ns : List Node) → (closedHtmlAll ns = htmlAll ns ↔ ClosesAll ns)
  | [] => iff_of_true rfl (List.forall_mem_nil _)
  | n :: ns => by
    have hsplit : ClosesAll (n :: ns) ↔ n.Closes ∧ ClosesAll ns := List.forall_mem_append
    rw [hsplit, htmlAll, closedHtmlAll,
      append_eq_append_iff (length_html_le n) (length_htmlAll_le ns), closedHtml_eq_iff n,
      closedHtmlAll_eq_iff ns]

end

end Page.Node

namespace Document

open Page (Node)

variable {d d' d'' : Document} {parent : NodeId} {cs cs' : List NodeId}

/-! ## What nodes of a document show -/

/-- What nodes of a document show, one behind the other. All nodes on the way are at least `lo`, and
each is behind the one that it hangs below. -/
inductive Writes (d : Document) (lo : NodeId) : List NodeId → String → Prop
  | nil : Writes d lo [] ""
  | html {c : NodeId} {html : String} {cs : List NodeId} {s : String} (hlo : lo ≤ c)
    (hc : d.core? c = some (.html html none)) (rest : Writes d lo cs s) :
    Writes d lo (c :: cs) (html ++ s)
  | element {c : NodeId} {tag : String} {attributes : Dict String} {kids cs : List NodeId}
    {inner s : String} (hlo : lo ≤ c) (hc : d.core? c = some (.element tag attributes kids none))
    (hkids : ∀ k ∈ kids, c < k) (hinner : Writes d lo kids inner) (rest : Writes d lo cs s) :
    Writes d lo (c :: cs) (Page.openTag tag attributes ++ inner ++ Page.closeTag tag ++ s)

theorem outerHtmlWithin_html {c : NodeId} {html : String} (h : d.core? c = some (.html html none))
    (room : Nat) : d.outerHtmlWithin (room + 1) c = html := by
  obtain ⟨up, hc⟩ := core?_html h
  rw [outerHtmlWithin, hc]

theorem exists_parent_of_core? {c : NodeId} {tag : String} {attributes : Dict String}
    {kids : List NodeId} (h : d.core? c = some (.element tag attributes kids none)) :
    ∃ up, d.node? c = some (.element tag attributes kids up) := by
  obtain ⟨x, hx, hcore⟩ := Option.map_eq_some_iff.1 h
  cases x with
  | html => cases hcore
  | element tag' attributes' kids' up =>
    cases hcore
    exact ⟨up, hx⟩

namespace Writes

variable {lo lo' : NodeId} {s s' : String}

theorem le (h : Writes d lo cs s) : ∀ c ∈ cs, lo ≤ c := by
  induction h with
  | nil => exact List.forall_mem_nil _
  | html hlo _ _ ih => exact List.forall_mem_cons.2 ⟨hlo, ih⟩
  | element hlo _ _ _ _ _ ih => exact List.forall_mem_cons.2 ⟨hlo, ih⟩

/-- What is shown stays what it is as long as the nodes on the way do. -/
theorem mono (h : Writes d lo cs s) (hle : lo' ≤ lo)
    (hkept : ∀ m x, lo ≤ m → d.core? m = some x → d'.core? m = some x) : Writes d' lo' cs s := by
  induction h with
  | nil => exact .nil
  | html hlo hc _ ih => exact .html (Nat.le_trans hle hlo) (hkept _ _ hlo hc) ih
  | element hlo hc hkids _ _ ihinner ih =>
    exact .element (Nat.le_trans hle hlo) (hkept _ _ hlo hc) hkids ihinner ih

theorem append (h : Writes d lo cs s) (h' : Writes d lo cs' s') :
    Writes d lo (cs ++ cs') (s ++ s') := by
  induction h with
  | nil => rwa [String.empty_append]
  | html hlo hc _ ih =>
    rw [String.append_assoc]
    exact .html hlo hc ih
  | element hlo hc hkids hinner _ _ ih =>
    rw [String.append_assoc]
    exact .element hlo hc hkids hinner ih

/-- The way down is no longer than there are nodes behind its start. -/
theorem outerHtmlWithin (h : Writes d lo cs s) : ∀ room,
    (∀ c ∈ cs, d.nodes.size ≤ c + room) → String.join (cs.map (d.outerHtmlWithin room)) = s := by
  induction h with
  | nil => exact fun _ _ => rfl
  | @html c html cs s _ hc _ ih =>
    intro room hroom
    obtain ⟨hlong, hrest⟩ := List.forall_mem_cons.1 hroom
    rw [List.map_cons, String.join_cons, ih room hrest]
    cases room with
    | zero => exact absurd (lt_size_of_core? hc) (Nat.not_lt.2 hlong)
    | succ room => rw [outerHtmlWithin_html hc]
  | @element c tag attributes kids cs inner s _ hc hkids _ _ ihinner ih =>
    intro room hroom
    obtain ⟨hlong, hrest⟩ := List.forall_mem_cons.1 hroom
    rw [List.map_cons, String.join_cons, ih room hrest]
    cases room with
    | zero => exact absurd (lt_size_of_core? hc) (Nat.not_lt.2 hlong)
    | succ room =>
      obtain ⟨up, hnode⟩ := exists_parent_of_core? hc
      have hdown : ∀ k ∈ kids, d.nodes.size ≤ k + room := fun k hk => by
        refine Nat.le_trans hlong ?_
        rw [← Nat.succ_add_eq_add_succ]
        exact Nat.add_le_add_right (hkids k hk) room
      rw [Document.outerHtmlWithin, hnode]
      dsimp only
      rw [ihinner room hdown]

end Writes

/-! ## What is shown of a page -/

/-- Nodes that hang below an element show some markup. -/
def Written (d d' : Document) (parent : NodeId) (html : String) : Prop :=
  ∃ cs, Hung d d' parent cs ∧ Writes d' d.nodes.size cs html

namespace Written

variable {html html' : String}

theorem refl (d : Document) (parent : NodeId) : Written d d parent "" := ⟨[], .refl d parent, .nil⟩

theorem size (h : Written d d' parent html) : d.nodes.size ≤ d'.nodes.size := by
  obtain ⟨_, hhung, -⟩ := h
  exact hhung.size

theorem trans (h : Written d d' parent html) (h' : Written d' d'' parent html')
    (hp : parent < d.nodes.size) : Written d d'' parent (html ++ html') := by
  obtain ⟨cs, hhung, hwrites⟩ := h
  obtain ⟨cs', hhung', hwrites'⟩ := h'
  refine ⟨cs ++ cs', hhung.trans hhung', ?_⟩
  have hfirst : Writes d'' d.nodes.size cs html := hwrites.mono (Nat.le_refl _) fun m x hm hx =>
    hhung'.kept m x hx (Nat.ne_of_gt (Nat.lt_of_lt_of_le hp hm))
  exact hfirst.append (hwrites'.mono hhung.size fun _ _ _ hx => hx)

theorem addHtml (html : String) (hp : parent < d.nodes.size) :
    Written d (d.addHtml parent html).1 parent html := by
  have hself := core?_add_self (x := .html html (some parent)) rfl hp
  have hwrites := Writes.html (Nat.le_refl _) hself .nil
  rw [String.append_empty] at hwrites
  exact ⟨_, hung_add rfl hp, hwrites⟩

/-- An element, with what hangs below it. -/
theorem element {tag : String} {attributes : Dict String} (hp : parent < d.nodes.size)
    (h : Written (d.add (.element tag attributes [] (some parent))).1 d' d.nodes.size html) :
    Written d d' parent (Page.openTag tag attributes ++ html ++ Page.closeTag tag) := by
  obtain ⟨cs, hhung, hwrites⟩ := h
  have hadd := hung_add (x := .element tag attributes [] (some parent)) rfl hp
  rw [size_add] at hwrites
  have hself : d'.core? d.nodes.size = some (.element tag attributes cs none) :=
    hhung.children _ _ _ (core?_add_self rfl hp)
  have hbelow : Writes d' d.nodes.size cs html := hwrites.mono (Nat.le_succ _) fun _ _ _ hx => hx
  have hwhole := Writes.element (Nat.le_refl _) hself (fun k hk => hwrites.le k hk) hbelow .nil
  rw [String.append_empty] at hwhole
  exact ⟨[d.nodes.size], hadd.below hhung, hwhole⟩

theorem innerHtml {tag : String} {attributes : Dict String} {up : Option NodeId}
    (h : Written d d' parent html)
    (hparent : d.node? parent = some (.element tag attributes [] up)) :
    d'.innerHtml parent = html := by
  obtain ⟨cs, hhung, hwrites⟩ := h
  have hcore : d.core? parent = some (.element tag attributes [] none) := by
    rw [core?, hparent]
    rfl
  obtain ⟨up', hnode⟩ := exists_parent_of_core? (hhung.children _ _ _ hcore)
  rw [Document.innerHtml, hnode]
  exact hwrites.outerHtmlWithin _ fun c _ => by omega

end Written

mutual

theorem written_mount (d : Document) (parent : NodeId) (hp : parent < d.nodes.size) :
    (n : Node) → n.Keyed → Written d (d.mount parent n) parent n.closedHtml
  | .text content, _ => by
    unfold mount
    exact .addHtml _ hp
  | .raw html, _ => by
    unfold mount
    exact .addHtml _ hp
  | .fragment children, h => by
    unfold mount
    exact written_mountAll d parent hp children h
  | .element tag attributes children, h => by
    obtain ⟨hattributes, hchildren⟩ : (Dict.keys attributes).Nodup ∧ Node.KeyedAll children :=
      List.forall_mem_cons.1 h
    have hself := core?_add_self (x := .element tag attributes [] (some parent)) rfl hp
    unfold mount
    rw [addElement_eq, Dict.ofList_of_nodup hattributes]
    exact (written_mountAll _ _ (lt_size_of_core? hself) children hchildren).element hp
  | .island id component children, _ => by
    have hself := core?_add_self
      (x := .element "div" (placeAttributes ⟨id, component, children⟩) [] (some parent)) rfl hp
    unfold mount
    rw [addPlaceholder, addElement_eq, Node.closedHtml]
    dsimp only
    refine Written.element hp ?_
    split
    · rename_i hempty
      rw [hempty]
      exact .refl _ _
    · exact .addHtml _ (lt_size_of_core? hself)

theorem written_mountAll (d : Document) (parent : NodeId) (hp : parent < d.nodes.size) :
    (ns : List Node) → Node.KeyedAll ns →
      Written d (d.mountAll parent ns) parent (Node.closedHtmlAll ns)
  | [], _ => .refl d parent
  | n :: ns, h => by
    obtain ⟨hn, hns⟩ : n.Keyed ∧ Node.KeyedAll ns := List.forall_mem_append.1 h
    have hfirst := written_mount d parent hp n hn
    unfold mountAll
    exact hfirst.trans (written_mountAll _ parent (Nat.lt_of_lt_of_le hp hfirst.size) ns hns) hp

end

/-- An empty element that a page is hung below shows the page with all its elements outside of
islands closed. This is the markup of the page where none of them is one without a closing tag, and
no other page is shown as its markup. -/
theorem innerHtml_mount {tag : String} {attributes : Dict String} {up : Option NodeId}
    (hparent : d.node? parent = some (.element tag attributes [] up)) {page : Node}
    (hpage : page.Keyed) :
    (d.mount parent page).innerHtml parent = page.closedHtml ∧
      ((d.mount parent page).innerHtml parent = page.html ↔ page.Closes) := by
  have hp : parent < d.nodes.size := (Array.getElem?_eq_some_iff.1 hparent).1
  have hinner := (written_mount d parent hp page hpage).innerHtml hparent
  exact ⟨hinner, hinner ▸ page.closedHtml_eq_iff⟩

/-- A page with a field in an island, whose own elements all have a closing tag. -/
def fieldPage : Node :=
  .fragment [.element "p" [("class", "note")] [.text "1 < 2"],
    .island "i" "TextInput" [.element "input" [("type", "text")] []], .raw "<hr>"]

/-- The page is written as it is drawn, in an empty container of its own. -/
theorem innerHtml_mount_fieldPage :
    (({} : Document).addContainer "page").1.node? 0 =
      some (.element "div" [("id", "page")] [] none) ∧
      fieldPage.Keyed ∧
      ((({} : Document).addContainer "page").1.mount 0 fieldPage).innerHtml 0 = fieldPage.html := by
  have hcontainer : (({} : Document).addContainer "page").1.node? 0 =
      some (.element "div" [("id", "page")] [] none) := rfl
  have hkeyed : fieldPage.Keyed := by
    show ∀ e ∈ fieldPage.erased.elements, (Dict.keys e.2).Nodup
    decide
  have hcloses : fieldPage.Closes := by
    show ∀ e ∈ fieldPage.erased.elements, Page.voidElements.contains e.1 = false
    decide
  exact ⟨hcontainer, hkeyed, (innerHtml_mount hcontainer hkeyed).2.2 hcloses⟩

/-- A line break outside of islands gets a closing tag that its markup does not have. -/
theorem not_innerHtml_mount_break : ¬∀ page : Node, page.Keyed →
    ((({} : Document).addContainer "page").1.mount 0 page).innerHtml 0 = page.html := by
  intro h
  have hkeyed : (Node.element "br" [] []).Keyed := List.forall_mem_singleton.2 List.nodup_nil
  exact absurd (h _ hkeyed) (by decide)

end Document

end Archipelago
