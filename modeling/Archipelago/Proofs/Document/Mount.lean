import Archipelago.Proofs.Document
import Archipelago.Proofs.Page.Drawn

/-!
# Pages in a document

To hang a page below an element adds nodes behind all others and changes nothing but that element.
A walk finds the places of the islands in the order of the page, as long as no other element takes
itself for one. What carries the proof is the walk as a relation, which stays what it is while more
nodes are added.
-/

namespace Archipelago

namespace Document

open Page (Placeholder)

variable {d d' d'' : Document} {parent : NodeId} {cs cs' : List NodeId}

/-! ## Nodes that are added -/

theorem exists_core? {n : NodeId} (h : n < d.nodes.size) : ∃ x, d.core? n = some x := by
  unfold core? node?
  rw [Array.getElem?_eq_getElem h]
  exact ⟨_, rfl⟩

/-- One document comes from another by nodes that are added, some of them below an element. -/
structure Hung (d d' : Document) (parent : NodeId) (cs : List NodeId) : Prop where
  size : d.nodes.size ≤ d'.nodes.size
  kept : ∀ m x, d.core? m = some x → m ≠ parent → d'.core? m = some x
  children : ∀ tag attributes old, d.core? parent = some (.element tag attributes old none) →
    d'.core? parent = some (.element tag attributes (old ++ cs) none)

namespace Hung

theorem refl (d : Document) (parent : NodeId) : Hung d d parent [] where
  size := Nat.le_refl _
  kept _ _ hm _ := hm
  children tag attributes old h := by rwa [List.append_nil]

theorem trans (h : Hung d d' parent cs) (h' : Hung d' d'' parent cs') :
    Hung d d'' parent (cs ++ cs') where
  size := Nat.le_trans h.size h'.size
  kept m x hm hne := h'.kept m x (h.kept m x hm hne) hne
  children tag attributes old ho := by
    rw [← List.append_assoc]
    exact h'.children _ _ _ (h.children _ _ _ ho)

/-- What is hung below a node that has been added. -/
theorem below (h : Hung d d' parent cs) (h' : Hung d' d'' d.nodes.size cs') :
    Hung d d'' parent cs where
  size := Nat.le_trans h.size h'.size
  kept m x hm hne :=
    h'.kept m x (h.kept m x hm hne) (Nat.ne_of_lt (lt_size_of_core? hm))
  children _ _ _ ho :=
    h'.kept _ _ (h.children _ _ _ ho) (Nat.ne_of_lt (lt_size_of_core? ho))

end Hung

theorem size_add (d : Document) (x : DocumentNode) : (d.add x).1.nodes.size = d.nodes.size + 1 := by
  unfold add
  dsimp only
  split
  · rw [← Array.size_push x]
    exact Array.size_modify
  · exact Array.size_push x

theorem addElement_eq (d : Document) (parent : Option NodeId) (tag : String)
    (attributes : Dict String) :
    d.addElement parent tag attributes =
      ((d.add (.element tag attributes [] parent)).1, d.nodes.size) := by
  refine Prod.ext rfl ?_
  unfold addElement add
  dsimp only
  split
  · rfl
  · rfl

section

variable {x : DocumentNode} (hx : x.parent? = some parent) (hp : parent < d.nodes.size)
include hx hp

theorem core?_add_self : (d.add x).1.core? d.nodes.size = some x.core := by
  rw [core?_add d hx hp, if_neg (Nat.ne_of_lt hp), if_pos rfl]

/-- A new node hangs below its parent. -/
theorem hung_add : Hung d (d.add x).1 parent [d.nodes.size] where
  size := size_add d x ▸ Nat.le_succ _
  kept m y hm hne := by
    rw [core?_add d hx hp, if_neg (Ne.symm hne), if_neg (Nat.ne_of_lt (lt_size_of_core? hm)), hm]
  children tag attributes old ho := by
    rw [core?_add d hx hp, if_pos rfl, ho]
    rfl

end

/-! ## Places that a walk finds -/

/-- The attributes of the place of an island. -/
def placeAttributes (p : Placeholder) : Dict String :=
  [(Page.islandAttr, p.id), (Page.componentAttr, p.component)]

/-- What a walk over nodes finds: the outermost places of islands, with the islands that they are
of. All nodes on the way are at least `lo`, and each is behind the one that it hangs below. -/
inductive Finds (d : Document) (lo : NodeId) : List NodeId → List (NodeId × Placeholder) → Prop
  | nil : Finds d lo [] []
  | place {c : NodeId} {p : Placeholder} {kids cs : List NodeId}
    {found : List (NodeId × Placeholder)} (hlo : lo ≤ c)
    (hc : d.core? c = some (.element "div" (placeAttributes p) kids none))
    (rest : Finds d lo cs found) : Finds d lo (c :: cs) ((c, p) :: found)
  | descend {c : NodeId} {x : DocumentNode} {cs : List NodeId}
    {below found : List (NodeId × Placeholder)} (hlo : lo ≤ c) (hc : d.core? c = some x)
    (hx : Page.islandAttr ∉ Dict.keys x.attributes) (hkids : ∀ k ∈ x.children, c < k)
    (hbelow : Finds d lo x.children below) (rest : Finds d lo cs found) :
    Finds d lo (c :: cs) (below ++ found)

theorem isPlaceholder_eq (d : Document) (n : NodeId) {x : DocumentNode} (h : d.core? n = some x) :
    d.isPlaceholder n = Dict.contains x.attributes Page.islandAttr := by
  rw [isPlaceholder, attr?_eq, h]
  rfl

theorem childrenOf_eq (d : Document) (n : NodeId) {x : DocumentNode} (h : d.core? n = some x) :
    d.childrenOf n = x.children := by
  obtain ⟨y, hy, rfl⟩ := Option.map_eq_some_iff.1 h
  rw [childrenOf, hy]
  cases y <;> rfl

namespace Finds

variable {lo lo' : NodeId} {found found' : List (NodeId × Placeholder)}

theorem le (h : Finds d lo cs found) : ∀ c ∈ cs, lo ≤ c := by
  induction h with
  | nil => exact List.forall_mem_nil _
  | place hlo _ _ ih => exact List.forall_mem_cons.2 ⟨hlo, ih⟩
  | descend hlo _ _ _ _ _ _ ih => exact List.forall_mem_cons.2 ⟨hlo, ih⟩

/-- A walk stays what it is as long as the nodes on the way do. -/
theorem mono (h : Finds d lo cs found) (hle : lo' ≤ lo)
    (hkept : ∀ m x, lo ≤ m → d.core? m = some x → d'.core? m = some x) :
    Finds d' lo' cs found := by
  induction h with
  | nil => exact .nil
  | place hlo hc _ ih => exact .place (Nat.le_trans hle hlo) (hkept _ _ hlo hc) ih
  | descend hlo hc hx hkids _ _ ihbelow ih =>
    exact .descend (Nat.le_trans hle hlo) (hkept _ _ hlo hc) hx hkids ihbelow ih

/-- What is found below one child, and then below the next. -/
theorem append (h : Finds d lo cs found) (h' : Finds d lo cs' found') :
    Finds d lo (cs ++ cs') (found ++ found') := by
  induction h with
  | nil => exact h'
  | place hlo hc _ ih => exact .place hlo hc ih
  | descend hlo hc hx hkids hbelow _ _ ih =>
    rw [List.append_assoc]
    exact .descend hlo hc hx hkids hbelow ih

theorem hasElement (h : Finds d lo cs found) :
    ∀ x ∈ found, ∃ kids, d.HasElement x.1 (placeAttributes x.2) kids := by
  induction h with
  | nil => exact List.forall_mem_nil _
  | place _ hc _ ih => exact List.forall_mem_cons.2 ⟨⟨_, _, hc⟩, ih⟩
  | descend _ _ _ _ _ _ ihbelow ih => exact List.forall_mem_append.2 ⟨ihbelow, ih⟩

/-- A walk down is no longer than there are nodes behind its start. -/
theorem placeholdersWithin (h : Finds d lo cs found) : ∀ room,
    (∀ c ∈ cs, d.nodes.size ≤ c + room) →
    (cs.flatMap fun c => if d.isPlaceholder c then [c] else d.placeholdersWithin room c) =
      found.map (·.1) := by
  induction h with
  | nil => exact fun room _ => rfl
  | @place c p kids cs found _ hc _ ih =>
    intro room hroom
    have hplace : d.isPlaceholder c = true := by
      rw [isPlaceholder_eq d c hc]
      rfl
    rw [List.flatMap_cons, if_pos hplace, ih room fun k hk => hroom k (List.mem_cons_of_mem _ hk)]
    rfl
  | @descend c x cs below found _ hc hx hkids _ _ ihbelow ih =>
    intro room hroom
    have hplace : d.isPlaceholder c = false := by
      rw [isPlaceholder_eq d c hc]
      exact Bool.eq_false_iff.2 fun h => hx (Dict.contains_iff.1 h)
    have hdown : d.placeholdersWithin room c = below.map (·.1) := by
      have hlong := hroom c List.mem_cons_self
      cases room with
      | zero => exact absurd (lt_size_of_core? hc) (Nat.not_lt.2 hlong)
      | succ room =>
        rw [Document.placeholdersWithin, childrenOf_eq d c hc]
        refine ihbelow room fun k hk => Nat.le_trans hlong ?_
        rw [← Nat.succ_add_eq_add_succ]
        exact Nat.add_le_add_right (hkids k hk) room
    rw [List.flatMap_cons, hplace, if_neg Bool.false_ne_true, hdown, List.map_append,
      ih room fun k hk => hroom k (List.mem_cons_of_mem _ hk)]

end Finds

/-! ## Pages -/

/-- A page hangs below an element, and a walk finds the places of its islands. -/
structure Holds (d d' : Document) (parent : NodeId) (places : List Placeholder) : Prop where
  holds : ∃ cs found, Hung d d' parent cs ∧ Finds d' d.nodes.size cs found ∧
    found.map (·.2) = places

theorem Holds.refl (d : Document) (parent : NodeId) : Holds d d parent [] :=
  ⟨[], [], .refl d parent, .nil, rfl⟩

/-- Two pieces below one parent, one behind the other. -/
theorem Holds.trans {places places' : List Placeholder} (h : Holds d d' parent places)
    (h' : Holds d' d'' parent places') (hp : parent < d.nodes.size) :
    Holds d d'' parent (places ++ places') := by
  obtain ⟨cs, found, hhung, hfinds, rfl⟩ := h
  obtain ⟨cs', found', hhung', hfinds', rfl⟩ := h'
  refine ⟨cs ++ cs', found ++ found', hhung.trans hhung', ?_, List.map_append⟩
  have hfirst : Finds d'' d.nodes.size cs found := hfinds.mono (Nat.le_refl _) fun m x hm hx =>
    hhung'.kept m x hx (Nat.ne_of_gt (Nat.lt_of_lt_of_le hp hm))
  exact hfirst.append (hfinds'.mono hhung.size fun m x _ hx => hx)

/-- Markup has no places. -/
theorem holds_html (html : String) (hp : parent < d.nodes.size) :
    Holds d (d.addHtml parent html).1 parent [] := by
  refine ⟨_, _, hung_add rfl hp, .descend (Nat.le_refl _) (core?_add_self rfl hp) ?_ ?_ .nil .nil,
    rfl⟩
  · exact List.not_mem_nil
  · exact List.forall_mem_nil _

/-- An element that is no place of an island, and what hangs below it. -/
theorem holds_element {tag : String} {attributes : Dict String} {places : List Placeholder}
    (hp : parent < d.nodes.size) (hattributes : Page.islandAttr ∉ Dict.keys attributes)
    (h : Holds (d.add (.element tag attributes [] (some parent))).1 d' d.nodes.size places) :
    Holds d d' parent places := by
  obtain ⟨cs, found, hhung, hfinds, rfl⟩ := h
  have hadd := hung_add (x := .element tag attributes [] (some parent)) rfl hp
  have hsize := size_add d (.element tag attributes [] (some parent))
  have hself : d'.core? d.nodes.size = some (.element tag attributes cs none) :=
    hhung.children _ _ _ (core?_add_self rfl hp)
  refine ⟨[d.nodes.size], found, hadd.below hhung, ?_, rfl⟩
  rw [hsize] at hfinds
  have hle := hfinds.le
  refine List.append_nil found ▸
    .descend (Nat.le_refl _) hself hattributes (fun k hk => hle k hk) ?_ .nil
  exact hfinds.mono (Nat.le_succ _) fun m x _ hx => hx

/-- A placeholder is a place, whatever is shown in it. -/
theorem holds_place (p : Placeholder) (html : String) (hp : parent < d.nodes.size) :
    Holds d (if html = "" then (d.add (.element "div" (placeAttributes p) [] (some parent))).1
      else ((d.add (.element "div" (placeAttributes p) [] (some parent))).1.addHtml d.nodes.size
        html).1) parent [p] := by
  have hadd := hung_add (x := .element "div" (placeAttributes p) [] (some parent)) rfl hp
  have hself := core?_add_self (x := .element "div" (placeAttributes p) [] (some parent)) rfl hp
  have hlt := lt_size_of_core? hself
  split
  · exact ⟨_, [(d.nodes.size, p)], hadd, .place (Nat.le_refl _) hself .nil, rfl⟩
  · have hbelow := hung_add (x := .html html (some d.nodes.size)) rfl hlt
    exact ⟨_, [(d.nodes.size, p)], hadd.below hbelow,
      .place (Nat.le_refl _) (hbelow.children _ _ _ hself) .nil, rfl⟩

theorem keys_ofList_subset {α : Type} (l : List (String × α)) {name : String}
    (h : name ∈ Dict.keys (Dict.ofList l)) : name ∈ l.map (·.1) := by
  obtain ⟨e, he, rfl⟩ := List.mem_map.1 h
  exact List.mem_map_of_mem (Dict.mem_of_mem_ofList he)

mutual

/-- A page that is mounted holds its placeholders in order. -/
theorem holds_mount (d : Document) (parent : NodeId) (hp : parent < d.nodes.size) :
    (n : Page.Node) → n.Clear → Holds d (d.mount parent n) parent n.placeholders
  | .text content, _ => by
    unfold mount
    exact holds_html _ hp
  | .raw html, _ => by
    unfold mount
    exact holds_html _ hp
  | .fragment children, h => by
    unfold mount
    exact holds_mountAll d parent hp children h
  | .element tag attributes children, h => by
    have hself :=
      core?_add_self (x := .element tag (Dict.ofList attributes) [] (some parent)) rfl hp
    unfold mount
    rw [addElement_eq]
    have hbelow := holds_mountAll _ _ (lt_size_of_core? hself) children h.2
    exact holds_element hp (fun hm => h.1 (keys_ofList_subset _ hm)) hbelow
  | .island id component children, h => by
    unfold mount
    rw [addPlaceholder, addElement_eq, Page.Node.placeholders, h]
    exact holds_place ⟨id, component, children⟩ (Page.Node.htmlAll children) hp

theorem holds_mountAll (d : Document) (parent : NodeId) (hp : parent < d.nodes.size) :
    (ns : List Page.Node) → Page.Node.ClearAll ns →
      Holds d (d.mountAll parent ns) parent (Page.Node.placeholdersAll ns)
  | [], _ => .refl d parent
  | n :: ns, h => by
    have hfirst := holds_mount d parent hp n h.1
    have hsize : d.nodes.size ≤ (d.mount parent n).nodes.size := by
      obtain ⟨_, _, hhung, -⟩ := hfirst
      exact hhung.size
    unfold mountAll
    exact hfirst.trans (holds_mountAll _ parent (Nat.lt_of_lt_of_le hp hsize) ns h.2) hp

end

/-! ## Containers -/

/-- The first element with an id is the one that is found. -/
theorem byId?_eq_some {id : String} {n : NodeId} (h : d.attr? n "id" = some id)
    (hfirst : ∀ m < n, d.attr? m "id" ≠ some id) : d.byId? id = some n := by
  obtain ⟨x, hx, hid⟩ := Option.bind_eq_some_iff.1 h
  obtain ⟨hn, rfl⟩ := Array.getElem?_eq_some_iff.1 hx
  refine Array.findIdx?_eq_some_iff_getElem.2 ⟨hn, decide_eq_true hid, fun m hm hmid => ?_⟩
  refine hfirst m hm (Option.bind_eq_some_iff.2 ⟨_, ?_, of_decide_eq_true hmid⟩)
  exact Array.getElem?_eq_getElem _

theorem attr?_ne_of_byId? {id : String} (h : d.byId? id = none) (n : NodeId) :
    d.attr? n "id" ≠ some id := by
  intro hn
  obtain ⟨x, hx, hid⟩ := Option.bind_eq_some_iff.1 hn
  have hnot := Array.findIdx?_eq_none_iff.1 h x (Array.mem_of_getElem? hx)
  exact of_decide_eq_false hnot hid

/-- A container is a new element with an id. -/
theorem core?_addContainer (d : Document) (id : String) (m : NodeId) :
    (d.addContainer id).1.core? m =
      if m = d.nodes.size then some (.element "div" [("id", id)] [] none) else d.core? m :=
  core?_push d (.element "div" [("id", id)] [] none) _ m

theorem addContainer_snd (d : Document) (id : String) : (d.addContainer id).2 = d.nodes.size := by
  rw [addContainer, addElement_eq]

/-- A page in a new container: the container is the first element of its name, and a walk below it
finds the places of the islands in the order of the page. -/
theorem found_mount {id : String} (hnew : d.byId? id = none) {page : Page.Node}
    (hclear : page.Clear) (hd : d' = (d.addContainer id).1.mount (d.addContainer id).2 page) :
    d'.byId? id = some (d.addContainer id).2 ∧
      ∃ found : List (NodeId × Placeholder),
        d'.placeholders (d.addContainer id).2 = found.map (·.1) ∧
        found.map (·.2) = page.placeholders ∧
        ∀ x ∈ found, ∃ kids, d'.HasElement x.1 (placeAttributes x.2) kids := by
  have hcore := core?_addContainer d id
  have hself := hcore d.nodes.size
  rw [if_pos rfl] at hself
  have hholds := holds_mount (d.addContainer id).1 d.nodes.size (lt_size_of_core? hself) page hclear
  rw [addContainer_snd] at hd ⊢
  rw [← hd] at hholds
  obtain ⟨cs, found, hhung, hfinds, hplaces⟩ := hholds
  have hcontainer : d'.core? d.nodes.size = some (.element "div" [("id", id)] cs none) :=
    hhung.children _ _ _ hself
  refine ⟨byId?_eq_some ?_ fun m hm hid => ?_, found, ?_, hplaces, hfinds.hasElement⟩
  · rw [attr?_eq, hcontainer]
    rfl
  · refine attr?_ne_of_byId? hnew m ?_
    obtain ⟨x, hx⟩ := exists_core? hm
    have hkept := hhung.kept m x (by rw [hcore, if_neg (Nat.ne_of_lt hm), hx]) (Nat.ne_of_lt hm)
    rw [attr?_eq, hkept] at hid
    rw [attr?_eq, hx]
    exact hid
  · rw [placeholders, placeholdersWithin, childrenOf_eq _ _ hcontainer]
    exact hfinds.placeholdersWithin _ fun c _ => Nat.le_add_left _ _

end Document

end Archipelago
