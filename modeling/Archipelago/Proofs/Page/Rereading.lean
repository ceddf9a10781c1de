import Archipelago.Proofs.Markup.Reading

/-!
# Pages that are read back

What is written of a page is read as the same elements with the same texts, whatever the texts and
the values of attributes are. Texts that stand side by side are read as one, and so a reading goes
on behind a text that is still open: its characters so far stand in front of what comes next.
-/

namespace Archipelago

open Markup (Comes Ended Forest IsName IsTag OpenTag RawNode)
open Page (Node escapeText)

/-! ## What a page and its markup have in common -/

namespace Markup.RawNode

mutual

/-- A node without its places in the text. -/
def outline : RawNode → Node
  | element tag children =>
    .element tag.name (tag.attrs.map fun a => (a.name, a.value)) (outlineAll children)
  | text content _ => .text content

/-- The outlines of some nodes, in order. -/
def outlineAll : List RawNode → List Node
  | [] => []
  | n :: ns => outline n :: outlineAll ns

end

theorem outlineAll_append (ns ms : List RawNode) :
    outlineAll (ns ++ ms) = outlineAll ns ++ outlineAll ms := by
  induction ns with
  | nil => rfl
  | cons n ns ih => exact congrArg (outline n :: ·) ih

end Markup.RawNode

namespace Page

namespace Node

/-- Puts a text in front of nodes, in one with a text that stands there. -/
def prepend (s : String) : List Node → List Node
  | text t :: ns => text (s ++ t) :: ns
  | ns => if s = "" then ns else text s :: ns

/-- Nodes with their neighbouring texts in one and without empty texts. -/
def merged : List Node → List Node
  | [] => []
  | text s :: ns => prepend s (merged ns)
  | n :: ns => n :: merged ns

mutual

/-- The nodes without fragments, with the element that an island is written as. -/
def flat : Node → List Node
  | text content => [text content]
  | raw html => [raw html]
  | fragment children => flatAll children
  | element tag attributes children => [element tag attributes (merged (flatAll children))]
  | island id component children =>
    [element "div" [(islandAttr, id), (componentAttr, component)] (merged (flatAll children))]

def flatAll : List Node → List Node
  | [] => []
  | n :: ns => flat n ++ flatAll ns

end

/-- What is to be read of nodes. -/
def outline (ns : List Node) : List Node := merged (flatAll ns)

mutual

/-- Nothing in the page is markup already, and its elements are those of templates. -/
def Writable : Node → Prop
  | text _ => True
  | raw _ => False
  | fragment children => WritableAll children
  | element tag attributes children => isHtmlTag tag = true ∧ (∀ a ∈ attributes, IsName a.1) ∧
      (Markup.voidElements.contains tag = true → children = []) ∧ WritableAll children
  | island _ _ children => WritableAll children

/-- The same of all the pieces of a list. -/
def WritableAll : List Node → Prop
  | [] => True
  | n :: ns => Writable n ∧ WritableAll ns

end

theorem writableAll_iff {ns : List Node} : WritableAll ns ↔ ∀ n ∈ ns, n.Writable := by
  induction ns with
  | nil => simp [WritableAll]
  | cons n ns ih => simp [WritableAll, ih]

mutual

/-- The elements that a page is written with, and their attributes. -/
def elements : Node → List (String × Dict String)
  | text _ | raw _ => []
  | fragment children => elementsAll children
  | element tag attributes children => (tag, attributes) :: elementsAll children
  | island id component children =>
    ("div", [(islandAttr, id), (componentAttr, component)]) :: elementsAll children

def elementsAll : List Node → List (String × Dict String)
  | [] => []
  | n :: ns => elements n ++ elementsAll ns

end

theorem elementsAll_append (ns ms : List Node) :
    elementsAll (ns ++ ms) = elementsAll ns ++ elementsAll ms := by
  induction ns with
  | nil => rfl
  | cons n ns ih =>
    rw [List.cons_append, elementsAll, ih, elementsAll, List.append_assoc]

theorem elementsAll_singleton (n : Node) : elementsAll [n] = n.elements := by
  rw [elementsAll, elementsAll, List.append_nil]

theorem mem_elementsAll {e : String × Dict String} {ns : List Node} :
    e ∈ elementsAll ns ↔ ∃ n ∈ ns, e ∈ n.elements := by
  induction ns with
  | nil => simp [elementsAll]
  | cons n ns ih => simp [elementsAll, ih]

mutual

/-- How deep the elements of a page are nested. -/
def depth : Node → Nat
  | text _ | raw _ => 0
  | fragment children => depthAll children
  | element _ _ children | island _ _ children => depthAll children + 1

/-- How deep the deepest of some pieces is. -/
def depthAll : List Node → Nat
  | [] => 0
  | n :: ns => max (depth n) (depthAll ns)

end

theorem depthAll_le {ns : List Node} {k : Nat} : depthAll ns ≤ k ↔ ∀ n ∈ ns, n.depth ≤ k := by
  induction ns with
  | nil => simp [depthAll]
  | cons n ns ih => rw [depthAll, Nat.max_le, ih, List.forall_mem_cons]

/-! ### Their markup -/

theorem html_element {tag : String} (htag : voidElements.contains tag = false)
    (attributes : Dict String) (children : List Node) : (element tag attributes children).html =
      openTag tag attributes ++ htmlAll children ++ closeTag tag := by
  rw [html, if_neg (by rw [htag]; decide)]

theorem htmlAll_singleton (n : Node) : htmlAll [n] = n.html := by
  rw [htmlAll, htmlAll, String.append_empty]

theorem htmlAll_eq_join (ns : List Node) : htmlAll ns = String.join (ns.map html) := by
  induction ns with
  | nil => rfl
  | cons n ns ih => rw [htmlAll, ih, List.map_cons, String.join_cons]

/-! ### Their texts -/

theorem prepend_prepend (s t : String) (ns : List Node) :
    prepend s (prepend t ns) = prepend (s ++ t) ns := by
  cases ns with
  | nil =>
    by_cases ht : t = ""
    · simp [prepend, ht]
    · simp [prepend, ht]
  | cons n ns =>
    cases n with
    | text u => simp [prepend, String.append_assoc]
    | _ =>
      by_cases ht : t = ""
      · simp [prepend, ht]
      · simp [prepend, ht]

theorem merged_text_text (s t : String) (ns : List Node) :
    merged (text s :: text t :: ns) = merged (text (s ++ t) :: ns) := prepend_prepend s t _

theorem prepend_empty (ns : List Node) : prepend "" ns = ns := by
  cases ns with
  | nil => rfl
  | cons n ns =>
    cases n with
    | text t => simp [prepend]
    | _ => rfl

theorem merged_text_empty (ns : List Node) : merged (text "" :: ns) = merged ns :=
  prepend_empty _

/-- A text ends where an element starts. -/
theorem merged_text_element (s : String) (tag : String) (attributes : Dict String)
    (children ns : List Node) : merged (text s :: element tag attributes children :: ns) =
      merged [text s] ++ element tag attributes children :: merged ns := by
  show prepend s (element tag attributes children :: merged ns) = prepend s [] ++ _
  by_cases hs : s = ""
  · simp [prepend, hs]
  · simp [prepend, hs]

end Node

/-! ## Elements of an outline -/

namespace Node

theorem elementsAll_prepend (s : String) (ns : List Node) :
    elementsAll (prepend s ns) = elementsAll ns := by
  unfold prepend
  split
  · rfl
  · split
    · rfl
    · rfl

theorem elementsAll_merged (ns : List Node) : elementsAll (merged ns) = elementsAll ns := by
  induction ns with
  | nil => rfl
  | cons n ns ih =>
    cases n with
    | text s => exact (elementsAll_prepend s _).trans ih
    | _ => exact congrArg (_ ++ ·) ih

mutual

theorem elementsAll_flat : (n : Node) → elementsAll n.flat = n.elements
  | text _ | raw _ => rfl
  | fragment children => elementsAll_flatAll children
  | element _ _ children | island _ _ children => by
    rw [flat, elementsAll, elementsAll, elements, elementsAll_merged, elementsAll_flatAll children,
      List.append_nil, elements]

theorem elementsAll_flatAll : (ns : List Node) → elementsAll (flatAll ns) = elementsAll ns
  | [] => rfl
  | n :: ns => by
    rw [flatAll, elementsAll_append, elementsAll_flat n, elementsAll_flatAll ns, elementsAll]

end

/-- No element comes in or gets lost where texts become one. -/
theorem elementsAll_outline (ns : List Node) : elementsAll (outline ns) = elementsAll ns := by
  rw [outline, elementsAll_merged, elementsAll_flatAll]

end Node

/-! ## Reading -/

/-- Within so many open elements and behind any text, these characters are read as these nodes. -/
def ReadsTo (maxDepth level : Nat) (cs : List Char) (ns : List Node) : Prop :=
  ∀ (s : String) (f : Forest) (rest : List Char), f.opened.length = level → Ended rest →
    Comes maxDepth f ((escapeText s).toList ++ (cs ++ rest)) rest fun f' =>
      ∃ raw, f' = f.addAll raw ∧ RawNode.outlineAll raw = Node.merged (.text s :: ns)

namespace ReadsTo

variable {maxDepth level : Nat} {cs more rest : List Char} {ns ms : List Node}

theorem nil : ReadsTo maxDepth level [] [] := by
  intro s f rest _ hrest
  by_cases hs : s = ""
  · subst hs
    exact .refl ⟨[], rfl, rfl⟩
  · refine (Markup.comes_text hs hrest).mono ?_
    rintro f' ⟨span, rfl⟩
    refine ⟨[.text s span], rfl, ?_⟩
    simp [RawNode.outlineAll, RawNode.outline, Node.merged, Node.prepend, hs]

/-- Where no text is open. -/
theorem start (h : ReadsTo maxDepth level cs ns) {f : Forest} (hf : f.opened.length = level)
    (hrest : Ended rest) : Comes maxDepth f (cs ++ rest) rest fun f' =>
      ∃ raw, f' = f.addAll raw ∧ RawNode.outlineAll raw = Node.merged ns := by
  have hempty := h "" f rest hf hrest
  rw [Node.merged_text_empty] at hempty
  exact hempty

/-- A text goes on with the characters of the next one. -/
theorem text (h : ReadsTo maxDepth level cs ns) (t : String) :
    ReadsTo maxDepth level ((escapeText t).toList ++ cs) (.text t :: ns) := by
  intro s f rest hf hrest
  rw [Node.merged_text_text, List.append_assoc, ← List.append_assoc (escapeText s).toList,
    ← String.toList_append, ← escapeText_append]
  exact h (s ++ t) f rest hf hrest

/-- An element that has been read ends the text in front of it. -/
theorem behind (h : ReadsTo maxDepth level cs ns) {s : String} {f : Forest} {raw : List RawNode}
    (hf : f.opened.length = level) (hraw : RawNode.outlineAll raw = Node.merged [.text s])
    (t : OpenTag) (children : List RawNode) (hrest : Ended rest) :
    Comes maxDepth ((f.addAll raw).add (.element t children)) (cs ++ rest) rest fun f' =>
      ∃ raw, f' = f.addAll raw ∧ RawNode.outlineAll raw =
        Node.merged (.text s :: (RawNode.element t children).outline :: ns) := by
  have hopened : ((f.addAll raw).add (.element t children)).opened.length = level := by
    rw [Forest.length_opened_add, Forest.length_opened_addAll, hf]
  refine (h.start hopened hrest).mono ?_
  rintro f' ⟨raw', rfl, hraw'⟩
  refine ⟨raw ++ .element t children :: raw', ?_, ?_⟩
  · rw [Forest.addAll_append]
    rfl
  · rw [RawNode.outlineAll_append, hraw, RawNode.outlineAll, hraw', RawNode.outline,
      Node.merged_text_element]

section

variable {tag : String} {attributes : Dict String} (htag : IsTag tag)
  (hnames : ∀ a ∈ attributes, IsName a.1) (hlevel : level < maxDepth)
include htag hnames hlevel

/-- The tag that opens an element ends the text in front of it. -/
theorem comes_openTag (s : String) {f : Forest} (hf : f.opened.length = level) :
    Comes maxDepth f ((escapeText s).toList ++ ((openTag tag attributes).toList ++ rest)) rest
      fun f' => ∃ raw t, RawNode.outlineAll raw = Node.merged [.text s] ∧ t.name = tag ∧
        t.attrs.map (fun a => (a.name, a.value)) = attributes ∧
        f' = if Markup.voidElements.contains tag then (f.addAll raw).add (.element t [])
          else { f.addAll raw with opened := (t, []) :: (f.addAll raw).opened } := by
  have hended : Ended ((openTag tag attributes).toList ++ rest) := by
    refine .inr ?_
    rw [Markup.startsPiece, (Markup.startsOpening_openTag htag attributes rest).1, Bool.or_true]
  refine (nil s f _ hf hended).trans ?_
  rintro f' ⟨raw, rfl, hraw⟩
  have hdepth : (f.addAll raw).opened.length < maxDepth := by
    rw [Forest.length_opened_addAll, hf]
    exact hlevel
  refine (Markup.comes_openTag htag hnames hdepth).mono ?_
  rintro f' ⟨t, htname, htattrs, hf'⟩
  exact ⟨raw, t, hraw, htname, htattrs, hf'⟩

theorem void (hvoid : Markup.voidElements.contains tag = true)
    (hmore : ReadsTo maxDepth level more ms) : ReadsTo maxDepth level
      ((openTag tag attributes).toList ++ more) (.element tag attributes [] :: ms) := by
  intro s f rest hf hrest
  rw [List.append_assoc]
  refine (comes_openTag htag hnames hlevel s hf).trans ?_
  rintro f' ⟨raw, t, hraw, rfl, rfl, rfl⟩
  rw [if_pos hvoid]
  exact hmore.behind hf hraw t [] hrest

/-- An element is read when its children are. -/
theorem element (hvoid : Markup.voidElements.contains tag = false)
    (hchildren : ReadsTo maxDepth (level + 1) cs ns) (hmore : ReadsTo maxDepth level more ms) :
    ReadsTo maxDepth level
      ((openTag tag attributes).toList ++ (cs ++ ((closeTag tag).toList ++ more)))
      (.element tag attributes (Node.merged ns) :: ms) := by
  intro s f rest hf hrest
  rw [List.append_assoc, List.append_assoc, List.append_assoc]
  refine (comes_openTag htag hnames hlevel s hf).trans ?_
  rintro f' ⟨raw, t, hraw, rfl, rfl, rfl⟩
  rw [if_neg (by rw [hvoid]; decide)]
  have hopened : ({ f.addAll raw with opened := (t, []) :: (f.addAll raw).opened } :
      Forest).opened.length = level + 1 := by
    rw [List.length_cons, Forest.length_opened_addAll, hf]
  have hclose : Ended ((closeTag t.name).toList ++ (more ++ rest)) := by
    rw [Markup.toList_closeTag]
    exact .inr rfl
  refine (hchildren.start hopened hclose).trans ?_
  rintro f' ⟨inner, rfl, hinner⟩
  rw [Forest.addAll_opened, List.append_nil]
  refine (Markup.comes_closeTag htag).trans ?_
  rintro f' rfl
  rw [List.reverse_reverse, ← hinner]
  exact hmore.behind hf hraw t inner hrest

end

/-- An element as a page writes it, with its children between its tags. -/
theorem between {tag : String} {attributes : Dict String} {children : List Node}
    (htag : isHtmlTag tag = true) (hnames : ∀ a ∈ attributes, IsName a.1)
    (hvoid : Markup.voidElements.contains tag = false)
    (hdepth : level + 1 + Node.depthAll children ≤ maxDepth)
    (hchildren : ReadsTo maxDepth (level + 1) ((Node.htmlAll children).toList ++ [])
      (Node.flatAll children ++ []))
    (hmore : ReadsTo maxDepth level more ms) : ReadsTo maxDepth level
      ((openTag tag attributes ++ Node.htmlAll children ++ closeTag tag).toList ++ more)
      (.element tag attributes (Node.merged (Node.flatAll children)) :: ms) := by
  rw [List.append_nil, List.append_nil] at hchildren
  rw [String.toList_append, String.toList_append, List.append_assoc, List.append_assoc]
  exact element (Markup.isTag_of_isHtmlTag htag) hnames (by omega) hvoid hchildren hmore

end ReadsTo

/-! ## Pages -/

/-- Where a page closes no tag, none is expected. -/
theorem voidElements_of_isHtmlTag {tag : String} (h : isHtmlTag tag = true) :
    voidElements.contains tag = Markup.voidElements.contains tag := by
  have hall : ∀ t ∈ htmlTags, voidElements.contains t = Markup.voidElements.contains t := by
    decide
  exact hall tag (List.contains_iff_mem.1 h)

section

variable {maxDepth : Nat}

mutual

theorem readsTo_node {level : Nat} {more : List Char} {ms : List Node}
    (hmore : ReadsTo maxDepth level more ms) :
    (n : Node) → n.Writable → level + n.depth ≤ maxDepth →
    ReadsTo maxDepth level (n.html.toList ++ more) (n.flat ++ ms)
  | .text content, _, _ => hmore.text content
  | .raw _, h, _ => h.elim
  | .fragment children, h, hdepth => readsTo_all hmore children h hdepth
  | .element tag attributes children, ⟨htag, hnames, hvoid, hchildren⟩, hdepth => by
    have hlevel : level + 1 + Node.depthAll children ≤ maxDepth := by
      rw [Node.depth] at hdepth
      omega
    rw [Node.html]
    split
    · rename_i hleaf
      rw [voidElements_of_isHtmlTag htag] at hleaf
      obtain rfl := hvoid hleaf
      exact .void (Markup.isTag_of_isHtmlTag htag) hnames (by omega) hleaf hmore
    · rename_i hleaf
      rw [voidElements_of_isHtmlTag htag, Bool.not_eq_true] at hleaf
      exact .between htag hnames hleaf hlevel (readsTo_all .nil children hchildren hlevel) hmore
  | .island id component children, hchildren, hdepth => by
    have hlevel : level + 1 + Node.depthAll children ≤ maxDepth := by
      rw [Node.depth] at hdepth
      omega
    have hnames : ∀ a ∈ [(islandAttr, id), (componentAttr, component)], IsName a.1 :=
      List.forall_mem_cons.2 ⟨(by decide : IsName islandAttr),
        List.forall_mem_singleton.2 (by decide : IsName componentAttr)⟩
    have htag : isHtmlTag "div" = true := by decide
    exact .between htag hnames (by decide) hlevel (readsTo_all .nil children hchildren hlevel) hmore

theorem readsTo_all {level : Nat} {more : List Char} {ms : List Node}
    (hmore : ReadsTo maxDepth level more ms) : (ns : List Node) → Node.WritableAll ns →
    level + Node.depthAll ns ≤ maxDepth → ReadsTo maxDepth level
      ((Node.htmlAll ns).toList ++ more) (Node.flatAll ns ++ ms)
  | [], _, _ => hmore
  | n :: ns, ⟨hn, hns⟩, hdepth => by
    rw [Node.depthAll] at hdepth
    rw [Node.htmlAll, Node.flatAll, String.toList_append, List.append_assoc, List.append_assoc]
    exact readsTo_node (readsTo_all hmore ns hns (by omega)) n hn (by omega)

end

/-- The elements and texts of a page are all that a reading of its markup finds. -/
theorem exists_read {ns : List Node} (h : Node.WritableAll ns)
    (hdepth : Node.depthAll ns ≤ maxDepth) :
    ∃ raw, Markup.parse maxDepth (Node.htmlAll ns) = .ok raw ∧
      RawNode.outlineAll raw = Node.outline ns := by
  refine Markup.parse_of_comes (P := fun raw => RawNode.outlineAll raw = Node.outline ns) ?_
  have hread := (readsTo_all .nil ns h ((Nat.zero_add _).trans_le hdepth)).start (f := ⟨[], []⟩)
    rfl (.inl rfl)
  rw [List.append_nil, List.append_nil, List.append_nil] at hread
  refine hread.mono ?_
  rintro f' ⟨raw, rfl, hraw⟩
  refine ⟨raw.reverse, ?_, ?_⟩
  · rw [Forest.addAll_done, List.append_nil]
  · rw [List.reverse_reverse]
    exact hraw

/-- Whatever its texts and the values of its attributes are, a page that is written as markup is
read as the same page. -/
theorem Node.read_html {n : Node} (h : n.Writable) (hdepth : n.depth ≤ maxDepth) :
    ∃ raw, Markup.parse maxDepth n.html = .ok raw ∧ RawNode.outlineAll raw = Node.outline [n] := by
  have hwritable : Node.WritableAll [n] := ⟨h, True.intro⟩
  have hall := exists_read hwritable ((Nat.max_zero _).trans_le hdepth)
  rwa [Node.htmlAll_singleton] at hall

end

/-- Neither a text that looks like a reference nor a value with quotes gets in the way. -/
theorem Node.read_html_island :
    ∃ raw, Markup.parse 2
        (Node.fragment [.island "0" "Door" [.fragment [.text "1 < 2", .text " &amp; "],
          .text "<b>"],
          .text "", .element "a" [("title", "it's \"so\"")] [.element "br" [] []]]).html = .ok raw ∧
      RawNode.outlineAll raw =
        [.element "div" [("data-tessera-island", "0"), ("data-tessera-component", "Door")]
          [.text "1 < 2 &amp; <b>"], .element "a" [("title", "it's \"so\"")]
          [.element "br" [] []]] :=
  Node.read_html
    ⟨⟨⟨True.intro, True.intro, True.intro⟩, True.intro, True.intro⟩, True.intro,
      ⟨by decide, by decide, by decide, ⟨by decide, by decide, by decide, True.intro⟩, True.intro⟩,
      True.intro⟩ (by decide)

end Page

end Archipelago
