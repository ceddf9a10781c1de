import Archipelago.Config
import Archipelago.Page.Resident
import Archipelago.Proofs.Decimal.Parts
import Archipelago.Proofs.Page.Sanitised

/-!
# Components of residents that are read back

The markup of a component is that of a page, its skeleton, in which what is shown of a resident is
text or the value of an attribute. So a reading of the markup finds the skeleton, whatever the
resident is.

What is shown is said here in its own words: the text of a value is that of the first field that
holds something, an address is shown where it runs no script, and a list is cut off at the whole
part of the limit. The functions that render agree with these rules.
-/

namespace Archipelago.Page

open Markup (IsName RawNode)

namespace Resident

/-! ## What is shown -/

/-- What a value holds under a name; only objects hold anything. -/
def held? : Value → String → Option Value
  | .object fields, name => Dict.get? fields name
  | _, _ => none

/-- The text that is shown of a value under some names: that of what it holds under the first of
them, where null and undefined count as nothing, and no text where it holds nothing under any. -/
def shownText (v : Value) : List String → String
  | [] => ""
  | name :: names =>
    match held? v name with
    | none | some .null | some .undefined => shownText v names
    | some w => w.display

/-- The text that is shown of a person. -/
def shownName (v : Value) : String := shownText v ["displayName", "username"]

/-- The address that is shown of a value under a name: a string that is not empty and that runs no
script. Other values than strings are no addresses. -/
def shownAddress? (v : Value) (name : String) : Option String :=
  match held? v name with
  | some (.string url) => if url ≠ "" ∧ Harmless url then some url else none
  | _ => none

/-- A number without its sign, exactly; an infinity and what is no number have no exact value. -/
def absolute? (x : Float) : Option ℚ :=
  match Decimal.parts x with
  | .finite _ m e _ => some (m * 2 ^ e)
  | .zero _ => some 0
  | .infinity _ | .notANumber => none

/-- How many of `size` entries are shown. A limit that is a number and not negative leaves as many
as its whole part says, and anything else leaves them all. -/
def shownCount (limit : Option Value) (size : Nat) : Nat :=
  match limit.bind Value.toNumber? with
  | some x =>
    if 0.0 ≤ x then
      match absolute? x with
      | some q => min ⌊q⌋₊ size
      | none => size
    else size
  | none => size

/-- The first entries of a list that the resident holds, as many as are shown. -/
def shownEntries (resident : Value) (props : Dict Value) (name : String) : List Value :=
  match held? resident name with
  | some (.array entries) => entries.take (shownCount (Dict.get? props "limit") entries.length)
  | _ => []

/-! ### What the renderer takes -/

theorem field?_eq (v : Value) (name : String) : field? v name = held? v name := by
  cases v <;> rfl

/-- The renderer finds the text that is shown. -/
theorem fieldText_eq (v : Value) (names : List String) : fieldText v names = shownText v names := by
  induction names with
  | nil => rfl
  | cons name names ih =>
    unfold fieldText at ih ⊢
    dsimp only at ih ⊢
    rw [List.findSome?_cons, field?_eq, shownText]
    cases held? v name with
    | none => exact ih
    | some w =>
      cases w with
      | undefined | null => exact ih
      | bool | number | string | array | object => rfl

theorem nameText_eq (v : Value) : nameText v = shownName v := fieldText_eq v _

/-- The renderer finds the address that is shown. -/
theorem fieldAddress?_eq {attr : String} (hattr : attr = "href" ∨ attr = "src") (v : Value)
    (name : String) : fieldAddress? v name attr = shownAddress? v name := by
  rw [fieldAddress?, field?_eq, shownAddress?]
  cases held? v name with
  | none => rfl
  | some w =>
    cases w with
    | string url =>
      show (if url = "" || (unsafeReason? attr url).isSome then none else some url) = _
      by_cases hurl : url ≠ "" ∧ Harmless url
      · have hsafe := (unsafeReason?_eq_none_iff hattr url).2 hurl.2
        rw [if_neg (by simp [hurl.1, hsafe])]
        exact (if_pos hurl).symm
      · have hunsafe : url = "" ∨ unsafeReason? attr url ≠ none := by
          by_contra hc
          rw [not_or, not_not] at hc
          exact hurl ⟨hc.1, (unsafeReason?_eq_none_iff hattr url).1 hc.2⟩
        rw [if_pos (by simpa [Option.isSome_iff_ne_none] using hunsafe)]
        exact (if_neg hurl).symm
    | undefined | null | bool | number | array | object => rfl

/-- The whole part of a mantissa that is scaled, by the integers alone. -/
theorem floor_mul_zpow (m : Nat) (e : Int) : ⌊(m : ℚ) * 2 ^ e⌋₊ =
    if 0 ≤ e then m * Decimal.pow2 e.toNat else m / Decimal.pow2 (-e).toNat := by
  cases e with
  | ofNat n =>
    have hscaled : (m : ℚ) * 2 ^ (n : Int) = ((m * 2 ^ n : Nat) : ℚ) := by
      rw [zpow_natCast]
      push_cast
      rfl
    rw [Int.ofNat_eq_natCast, if_pos (Int.natCast_nonneg n), hscaled, Nat.floor_natCast]
    rfl
  | negSucc n =>
    have hscaled : (m : ℚ) * 2 ^ Int.negSucc n = (m : ℚ) / ((2 ^ (n + 1) : Nat) : ℚ) := by
      rw [zpow_negSucc, ← div_eq_mul_inv]
      push_cast
      rfl
    rw [if_neg (Int.negSucc_not_nonneg n).1, hscaled, Nat.floor_div_eq_div]
    rfl

/-- The renderer takes the whole part of the exact number. -/
theorem wholePart?_eq (x : Float) : Decimal.wholePart? x = (absolute? x).map Nat.floor := by
  rw [Decimal.wholePart?, Decimal.magnitude_eq, absolute?]
  cases Decimal.parts x with
  | infinity | notANumber => rfl
  | zero =>
    have hzero : ⌊((0 : Nat) : ℚ) * 2 ^ (-1074 : Int)⌋₊ = ⌊(0 : ℚ)⌋₊ := by
      rw [Nat.cast_zero, zero_mul]
    exact congrArg some ((floor_mul_zpow 0 (-1074)).symm.trans hzero)
  | finite s m e hm => exact congrArg some (floor_mul_zpow m e).symm

theorem limit_eq (props : Dict Value) (size : Nat) :
    limit props size = shownCount (Dict.get? props "limit") size := by
  unfold limit shownCount
  cases (Dict.get? props "limit").bind Value.toNumber? with
  | none => rfl
  | some x =>
    dsimp only
    rw [wholePart?_eq]
    cases absolute? x with
    | none => rw [Option.map_none, Option.getD_none, Nat.min_self]
    | some q => rfl

/-- The renderer takes the entries that are shown. -/
theorem items_eq (resident : Value) (props : Dict Value) (name : String) :
    items resident props name = shownEntries resident props name := by
  rw [items, field?_eq, shownEntries, limit_eq]
  cases held? resident name with
  | none => exact List.take_nil
  | some w =>
    cases w with
    | array entries => rfl
    | undefined | null | bool | number | string | object => exact List.take_nil

/-! ## Skeletons -/

/-- An element of a class. -/
def box (tag className : String) (children : List Node) : Node :=
  .element tag [("class", className)] children

/-- A list of a class, with an element for each entry. -/
def listing (className : String) (entries : List (List Node)) : Node :=
  box "ul" className (entries.map (.element "li" []))

/-- The photo of a person, and an empty box where there is none to show. -/
def photoNode (owner : Value) : Node :=
  match shownAddress? owner "avatarUrl" with
  | some src =>
    .element "img" [("class", "profile-photo"), ("src", src), ("alt", shownName owner)] []
  | none => box "div" "profile-photo" []

/-- An entry of a guestbook: who wrote it, and what. -/
def entryNodes (e : Value) : List Node :=
  [.element "b" [] [.text (shownText e ["authorName", "author"])], .text " ",
    .text (shownText e ["message", "body"])]

/-- A link to a site, if it has an address to show. -/
def websiteNode? (site : Value) : Option Node :=
  (shownAddress? site "url").map fun href =>
    .element "a" [("href", href)] [.text (shownText site ["title", "url"])]

/-- An image, if it has an address to show. -/
def imageNode? (image : Value) : Option Node :=
  (shownAddress? image "url").map fun src =>
    .element "img" [("src", src), ("alt", shownText image ["alt", "caption"])] []

/-- The page that a component shows of a resident. -/
def skeleton (t : ResidentTag) (props : Dict Value) (resident : Value) : Node :=
  let owner := (held? resident "owner").getD .undefined
  let shown := shownEntries resident props
  match t with
  | .displayName => box "span" "display-name" [.text (shownName owner)]
  | .bio => box "p" "bio" [.text (shownText owner ["bio"])]
  | .profilePhoto => photoNode owner
  | .blogPosts =>
    listing "blog-posts" ((shown "posts").map fun p => [.text (shownText p ["title"])])
  | .guestbook => listing "guestbook" ((shown "guestbook").map entryNodes)
  | .friendDisplay =>
    listing "friends" ((shown "featuredFriends").map fun f => [.text (shownName f)])
  | .websiteDisplay => listing "websites" (((shown "websites").filterMap websiteNode?).map ([·]))
  | .imageCarousel => box "div" "carousel" ((shown "images").filterMap imageNode?)

/-! ### Their markup -/

/-- A list in terms of its nodes. -/
theorem list_map_html (className : String) (entries : List (List Node)) :
    list className (entries.map Node.htmlAll) = (listing className entries).html := by
  show element "ul" className _ = element "ul" className _
  rw [Node.htmlAll_eq_join, List.map_map, List.map_map]
  rfl

theorem html_photoNode (owner : Value) : (photoNode owner).html = photo owner := by
  unfold photoNode photo
  rw [fieldAddress?_eq (.inr rfl), nameText_eq]
  cases shownAddress? owner "avatarUrl" with
  | none => rfl
  | some src => rfl

theorem html_box {tag : String} (htag : voidElements.contains tag = false) (className : String)
    (children : List Node) :
    (box tag className children).html = element tag className (Node.htmlAll children) :=
  Node.html_element htag _ _

theorem htmlAll_entryNodes (e : Value) : Node.htmlAll (entryNodes e) = guestbookEntry e := by
  rw [entryNodes, Node.htmlAll, Node.html_element (by decide), Node.htmlAll_singleton, Node.htmlAll,
    Node.htmlAll_singleton, Node.html, Node.html, Node.html, ← String.append_assoc, guestbookEntry,
    fieldText_eq, fieldText_eq]
  rfl

theorem website?_eq (site : Value) : website? site = (websiteNode? site).map Node.html := by
  unfold website? websiteNode?
  rw [fieldAddress?_eq (.inl rfl), Option.map_map]
  refine congrArg (Option.map · _) (funext fun href => ?_)
  rw [Function.comp_apply, Node.html_element (by decide), Node.htmlAll_singleton, Node.html,
    fieldText_eq]

theorem image?_eq (image : Value) : image? image = (imageNode? image).map Node.html := by
  unfold image? imageNode?
  rw [fieldAddress?_eq (.inr rfl), fieldText_eq, Option.map_map]
  rfl

/-- The renderer writes the markup of the skeleton. -/
theorem html_skeleton (t : ResidentTag) (props : Dict Value) (resident : Value) :
    (skeleton t props resident).html = html t props resident := by
  have hitems : items resident props = shownEntries resident props :=
    funext (items_eq resident props)
  unfold html
  dsimp only
  rw [field?_eq, hitems]
  cases t with
  | displayName =>
    rw [skeleton, html_box (by decide), Node.htmlAll_singleton, Node.html, nameText_eq]
  | bio => rw [skeleton, html_box (by decide), Node.htmlAll_singleton, Node.html, fieldText_eq]
  | profilePhoto => exact html_photoNode _
  | blogPosts =>
    rw [skeleton, ← list_map_html, List.map_map]
    refine congrArg (list _) (List.map_congr_left fun v _ => ?_)
    rw [Function.comp_apply, Node.htmlAll_singleton, Node.html, fieldText_eq]
  | friendDisplay =>
    rw [skeleton, ← list_map_html, List.map_map]
    refine congrArg (list _) (List.map_congr_left fun v _ => ?_)
    rw [Function.comp_apply, Node.htmlAll_singleton, Node.html, nameText_eq]
  | guestbook =>
    rw [skeleton, ← list_map_html, List.map_map]
    exact congrArg (list _) (List.map_congr_left fun e _ => htmlAll_entryNodes e)
  | websiteDisplay =>
    rw [skeleton, ← list_map_html, List.map_map, funext website?_eq, ← List.map_filterMap]
    refine congrArg (list _) (List.map_congr_left fun n _ => ?_)
    exact Node.htmlAll_singleton n
  | imageCarousel =>
    rw [skeleton, html_box (by decide), Node.htmlAll_eq_join, funext image?_eq,
      ← List.map_filterMap]

/-! ## What stands in a skeleton -/

/-- The elements of skeletons, with the names of their attributes. -/
def shapes : List (String × List String) :=
  [("span", ["class"]), ("p", ["class"]), ("img", ["class", "src", "alt"]), ("div", ["class"]),
    ("ul", ["class"]), ("li", []), ("b", []), ("a", ["href"]), ("img", ["src", "alt"])]

/-- An element of a skeleton that no attribute makes unsafe. -/
structure Shaped (tag : String) (attributes : Dict String) : Prop where
  shape : (tag, Dict.keys attributes) ∈ shapes
  safe : ∀ a ∈ attributes, unsafeReason? a.1 a.2 = none

/-- A part of a skeleton whose elements nest no deeper than `level`. -/
structure Sound (level : Nat) (n : Node) : Prop where
  writable : n.Writable
  depth : n.depth ≤ level
  shaped : ∀ e ∈ n.elements, Shaped e.1 e.2

/-- The shapes of components are elements of HTML, with attributes that can be written. -/
theorem writable_of_shape {tag : String} {names : List String} (h : (tag, names) ∈ shapes) :
    isHtmlTag tag = true ∧ ∀ name ∈ names, IsName name := by
  have hall : ∀ s ∈ shapes, isHtmlTag s.1 = true ∧ ∀ name ∈ s.2, IsName name := by decide
  exact hall _ h

namespace Sound

variable {level : Nat} {tag : String} {attributes : Dict String} {children : List Node}

theorem text (content : String) : Sound level (.text content) where
  writable := True.intro
  depth := Nat.zero_le _
  shaped := List.forall_mem_nil _

theorem element (h : Shaped tag attributes)
    (hvoid : Markup.voidElements.contains tag = true → children = [])
    (hchildren : ∀ n ∈ children, Sound level n) :
    Sound (level + 1) (.element tag attributes children) := by
  obtain ⟨htag, hnames⟩ := writable_of_shape h.shape
  refine ⟨⟨htag, fun a ha => hnames a.1 (List.mem_map_of_mem ha), hvoid, ?_⟩, ?_, ?_⟩
  · exact Node.writableAll_iff.2 fun n hn => (hchildren n hn).writable
  · exact Nat.succ_le_succ (Node.depthAll_le.2 fun n hn => (hchildren n hn).depth)
  · refine List.forall_mem_cons.2 ⟨h, fun e he => ?_⟩
    obtain ⟨n, hn, he⟩ := Node.mem_elementsAll.1 he
    exact (hchildren n hn).shaped e he

theorem mono {level' : Nat} {n : Node} (h : Sound level n) (hle : level ≤ level') :
    Sound level' n :=
  { h with depth := h.depth.trans hle }

end Sound

/-! ### Parts -/

theorem safe_class (className : String) : unsafeReason? "class" className = none := rfl

theorem safe_alt (content : String) : unsafeReason? "alt" content = none := rfl

/-- An address that is shown is harmless. -/
theorem harmless_of_shownAddress? {v : Value} {name url : String}
    (h : shownAddress? v name = some url) : Harmless url := by
  unfold shownAddress? at h
  split at h
  · split at h
    · rename_i hurl
      obtain rfl := Option.some.inj h
      exact hurl.2
    · cases h
  · cases h

theorem safe_of_shownAddress? {v : Value} {name attr url : String}
    (hattr : attr = "href" ∨ attr = "src")
    (h : shownAddress? v name = some url) : unsafeReason? attr url = none :=
  (unsafeReason?_eq_none_iff hattr url).2 (harmless_of_shownAddress? h)

section

variable {level : Nat}

theorem sound_box {tag : String} (hshape : (tag, ["class"]) ∈ shapes)
    (hvoid : Markup.voidElements.contains tag = false) (className : String) {children : List Node}
    (h : ∀ n ∈ children, Sound level n) : Sound (level + 1) (box tag className children) :=
  .element ⟨hshape, List.forall_mem_singleton.2 (safe_class className)⟩
    (fun hleaf => by rw [hvoid] at hleaf; cases hleaf) h

theorem sound_listing (className : String) {entries : List (List Node)}
    (h : ∀ e ∈ entries, ∀ n ∈ e, Sound level n) :
    Sound (level + 2) (listing className entries) := by
  refine sound_box (by decide) (by decide) className fun n hn => ?_
  obtain ⟨e, he, rfl⟩ := List.mem_map.1 hn
  exact .element ⟨by decide, List.forall_mem_nil _⟩ (fun hleaf => by cases hleaf) (h e he)

theorem sound_photoNode (owner : Value) : Sound 1 (photoNode owner) := by
  unfold photoNode
  split
  · rename_i src hsrc
    refine .element ⟨(by decide : ("img", ["class", "src", "alt"]) ∈ shapes), ?_⟩ (fun _ => rfl)
      (List.forall_mem_nil _)
    exact List.forall_mem_cons.2 ⟨safe_class _, List.forall_mem_cons.2
      ⟨safe_of_shownAddress? (.inr rfl) hsrc, List.forall_mem_singleton.2 (safe_alt _)⟩⟩
  · exact sound_box (by decide) (by decide) _ (List.forall_mem_nil _)

theorem sound_entryNodes (e : Value) : ∀ n ∈ entryNodes e, Sound 1 n := by
  refine List.forall_mem_cons.2 ⟨?_, List.forall_mem_cons.2
    ⟨.text _, List.forall_mem_singleton.2 (.text _)⟩⟩
  exact .element ⟨by decide, List.forall_mem_nil _⟩ (fun hleaf => by cases hleaf)
    (List.forall_mem_singleton.2 (.text _))

theorem sound_websiteNode? {site : Value} {n : Node} (h : websiteNode? site = some n) :
    Sound 1 n := by
  obtain ⟨href, hhref, rfl⟩ := Option.map_eq_some_iff.1 h
  exact .element ⟨(by decide : ("a", ["href"]) ∈ shapes),
    List.forall_mem_singleton.2 (safe_of_shownAddress? (.inl rfl) hhref)⟩
    (fun hleaf => by cases hleaf) (List.forall_mem_singleton.2 (.text _))

theorem sound_imageNode? {image : Value} {n : Node} (h : imageNode? image = some n) :
    Sound 1 n := by
  obtain ⟨src, hsrc, rfl⟩ := Option.map_eq_some_iff.1 h
  refine .element ⟨(by decide : ("img", ["src", "alt"]) ∈ shapes), ?_⟩ (fun _ => rfl)
    (List.forall_mem_nil _)
  exact List.forall_mem_cons.2
    ⟨safe_of_shownAddress? (.inr rfl) hsrc, List.forall_mem_singleton.2 (safe_alt _)⟩

end

/-- Whatever is known of the resident, a component is a page that can be written and is safe. -/
theorem sound_skeleton (t : ResidentTag) (props : Dict Value) (resident : Value) :
    Sound 3 (skeleton t props resident) := by
  have htexts : ∀ (f : Value → String) (vs : List Value),
      ∀ e ∈ vs.map (fun v => [Node.text (f v)]), ∀ n ∈ e, Sound 0 n := by
    intro f vs e he
    obtain ⟨v, -, rfl⟩ := List.mem_map.1 he
    exact List.forall_mem_singleton.2 (.text _)
  cases t with
  | displayName | bio =>
    exact (sound_box (by decide) (by decide) _ (List.forall_mem_singleton.2 (.text _))).mono
      (Nat.le_add_left 1 2)
  | profilePhoto => exact (sound_photoNode _).mono (Nat.le_add_left 1 2)
  | blogPosts | friendDisplay => exact (sound_listing _ (htexts _ _)).mono (Nat.le_succ 2)
  | guestbook =>
    refine sound_listing _ fun e he => ?_
    obtain ⟨v, -, rfl⟩ := List.mem_map.1 he
    exact sound_entryNodes v
  | websiteDisplay =>
    refine sound_listing _ fun e he => ?_
    obtain ⟨n, hn, rfl⟩ := List.mem_map.1 he
    obtain ⟨v, -, hv⟩ := List.mem_filterMap.1 hn
    exact List.forall_mem_singleton.2 (sound_websiteNode? hv)
  | imageCarousel =>
    refine (sound_box (by decide) (by decide) _ fun n hn => ?_).mono (Nat.le_succ 2)
    obtain ⟨v, -, hv⟩ := List.mem_filterMap.1 hn
    exact sound_imageNode? hv

/-! ## Reading -/

/-- Each component goes by its name. -/
theorem components_name (t : ResidentTag) (props : Dict Value) (resident : Value) :
    components t.name props resident = some (html t props resident) := by
  have hname : ResidentTag.ofName? t.name = some t := by cases t <;> decide
  rw [components, hname]
  rfl

/-- Whatever the resident is, the markup of a component is read as the skeleton of the component,
and no attribute in it is unsafe. -/
theorem read_components (t : ResidentTag) (props : Dict Value) (resident : Value) :
    ∃ html raw, components t.name props resident = some html ∧
      Markup.parse ({} : CompilerLimits).maxDepth html = .ok raw ∧
      RawNode.outlineAll raw = Node.outline [skeleton t props resident] ∧
      ∀ e ∈ Node.elementsAll (RawNode.outlineAll raw), Shaped e.1 e.2 := by
  have hsound := sound_skeleton t props resident
  have hwritable : Node.WritableAll [skeleton t props resident] := ⟨hsound.writable, True.intro⟩
  have hdepth : Node.depthAll [skeleton t props resident] ≤ ({} : CompilerLimits).maxDepth :=
    Node.depthAll_le.2 (List.forall_mem_singleton.2 (hsound.depth.trans (by decide)))
  obtain ⟨raw, hparse, hraw⟩ := exists_read hwritable hdepth
  rw [Node.htmlAll_singleton, html_skeleton] at hparse
  refine ⟨_, raw, components_name t props resident, hparse, hraw, ?_⟩
  rw [hraw, Node.elementsAll_outline, Node.elementsAll_singleton]
  exact hsound.shaped

/-- Where no more than three entries of a list are to be shown. -/
def hutProps : Dict Value := [("limit", .number 3.5)]

/-- Four websites: a script, one without a title whose address has quotes and brackets in it, one
whose title looks like markup, and one beyond the limit. -/
def hutSites : List Value := [
  .object [("url", .string "java\tScript:run()"), ("title", .string "win")],
  .object [("url", .string "https://a.example/?q=\"<1>\"&amp;"), ("title", .undefined)],
  .object [("title", .string "</a><script>"), ("url", .string "/b")],
  .object [("title", .string "C"), ("url", .string "/c")]]

/-- Someone without a display name. -/
def hut : Value :=
  .object [
    ("owner", .object [("displayName", .null), ("username", .string "Ada \"<3\" & co"),
      ("avatarUrl", .string "data:image/png,ada")]),
    ("websites", .array hutSites)]

/-- The first three of the sites are what is shown of them. -/
theorem shownEntries_hut : shownEntries hut hutProps "websites" = hutSites.take 3 := by
  have hcount : shownCount (Dict.get? hutProps "limit") hutSites.length = 3 := by
    rw [← limit_eq]
    decide +kernel
  exact congrArg (hutSites.take ·) hcount

/-- Of the websites two are read, with their texts and addresses as the resident holds them, and
of the owner a photo whose name is the second one. -/
theorem read_components_hut :
    (∃ html raw, components "WebsiteDisplay" hutProps hut = some html ∧
      Markup.parse ({} : CompilerLimits).maxDepth html = .ok raw ∧
      RawNode.outlineAll raw = [.element "ul" [("class", "websites")] [
        .element "li" [] [.element "a" [("href", "https://a.example/?q=\"<1>\"&amp;")]
          [.text "https://a.example/?q=\"<1>\"&amp;"]],
        .element "li" [] [.element "a" [("href", "/b")] [.text "</a><script>"]]]]) ∧
    ∃ html raw, components "ProfilePhoto" hutProps hut = some html ∧
      Markup.parse ({} : CompilerLimits).maxDepth html = .ok raw ∧
      RawNode.outlineAll raw = [.element "img" [("class", "profile-photo"),
        ("src", "data:image/png,ada"), ("alt", "Ada \"<3\" & co")] []] := by
  refine ⟨?_, ?_⟩
  · obtain ⟨html, raw, hhtml, hparse, hraw, -⟩ := read_components .websiteDisplay hutProps hut
    refine ⟨html, raw, hhtml, hparse, hraw.trans ?_⟩
    rw [skeleton, shownEntries_hut]
    rfl
  · obtain ⟨html, raw, hhtml, hparse, hraw, -⟩ := read_components .profilePhoto hutProps hut
    refine ⟨html, raw, hhtml, hparse, hraw.trans ?_⟩
    rfl

end Resident

end Archipelago.Page
