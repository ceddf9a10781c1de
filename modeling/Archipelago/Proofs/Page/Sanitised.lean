import Archipelago.Proofs.Page.Drawn
import Archipelago.Proofs.Page.Rereading

/-!
# Pages without scripts

The elements that authors write are screened when a template is compiled, and those of controls have
attributes of a few names only. So no element of a page runs a script, whatever the markup, the
variables and the resident are.
-/

namespace Archipelago.Page

open Text (asciiLower startsWith)

/-- What counts of the value of an attribute: its letters in lower case, without blanks and control
characters. -/
def compact (value : String) : String :=
  asciiLower <| String.ofList <|
    value.toList.filter fun c => !Text.isBlank c && !Text.isControl c

/-- An address of no script, and of no data but an image. -/
structure Harmless (address : String) : Prop where
  javascript : startsWith "javascript:" (compact address) = false
  vbscript : startsWith "vbscript:" (compact address) = false
  data : startsWith "data:" (compact address) = true →
    startsWith "data:image/" (compact address) = true

/-- Whether an address is harmless can be told from how it starts. -/
instance (address : String) : Decidable (Harmless address) :=
  decidable_of_iff (startsWith "javascript:" (compact address) = false ∧
      startsWith "vbscript:" (compact address) = false ∧
      (startsWith "data:" (compact address) = true →
        startsWith "data:image/" (compact address) = true))
    ⟨fun h => ⟨h.1, h.2.1, h.2.2⟩, fun h => ⟨h.javascript, h.vbscript, h.data⟩⟩

/-- An element that runs no script. -/
structure Sanitised (tag : String) (attributes : Dict String) : Prop where
  tag : tag ∈ htmlTags ∨ tag ∈ controlTags
  handlers : ∀ a ∈ attributes, startsWith "on" (asciiLower a.1) = false
  addresses : ∀ a ∈ attributes, asciiLower a.1 ∈ addressAttributes → Harmless a.2

/-- What the screening of attributes lets through. -/
theorem harmless_of_unsafeReason? {name value : String} (h : unsafeReason? name value = none) :
    startsWith "on" (asciiLower name) = false ∧
      (asciiLower name ∈ addressAttributes → Harmless value) := by
  have hcompact : asciiLower (String.ofList
      (value.toList.filter fun c => !Text.isBlank c && !Text.isControl c)) = compact value := rfl
  unfold unsafeReason? at h
  dsimp only at h
  rw [hcompact] at h
  split at h
  · cases h
  · rename_i hhandler
    refine ⟨Bool.eq_false_iff.2 hhandler, fun hname => ?_⟩
    rw [if_pos (List.contains_iff_mem.2 hname)] at h
    split at h
    · cases h
    · split at h
      · cases h
      · split at h
        · cases h
        · split at h
          · cases h
          · rename_i hscript hdata
            rw [Bool.or_eq_true, not_or, Bool.not_eq_true, Bool.not_eq_true] at hscript
            refine ⟨hscript.1, hscript.2, fun hd => ?_⟩
            by_contra himage
            exact hdata (by rw [hd, Bool.eq_false_iff.2 himage]; rfl)

/-- An address that an element or a component may have is screened out only if it runs a script. -/
theorem unsafeReason?_eq_none_iff {name : String} (hname : name = "href" ∨ name = "src")
    (value : String) : unsafeReason? name value = none ↔ Harmless value := by
  have hall : ∀ n ∈ ["href", "src"], startsWith "on" (asciiLower n) = false ∧
      startsWith "data-tessera" (asciiLower n) = false ∧ asciiLower n ≠ "style" ∧
      addressAttributes.contains (asciiLower n) = true := by decide
  obtain ⟨hhandler, hreserved, hstyle, haddress⟩ := hall name (by simpa using hname)
  refine ⟨fun h => (harmless_of_unsafeReason? h).2 (List.contains_iff_mem.1 haddress), fun h => ?_⟩
  have hcompact : asciiLower (String.ofList
      (value.toList.filter fun c => !Text.isBlank c && !Text.isControl c)) = compact value := rfl
  have hdata : (startsWith "data:" (compact value) &&
      !startsWith "data:image/" (compact value)) = false := by
    cases hd : startsWith "data:" (compact value) with
    | false => rfl
    | true => rw [h.data hd]; rfl
  unfold unsafeReason?
  dsimp only
  rw [hcompact, hhandler, hreserved, decide_eq_false hstyle, haddress, h.javascript, h.vbscript,
    hdata]
  rfl

theorem sanitised_of_safe {tag : String} {attributes : Dict String} (htag : isHtmlTag tag = true)
    (h : ∀ a ∈ attributes, unsafeReason? a.1 a.2 = none) : Sanitised tag attributes where
  tag := .inl (List.contains_iff_mem.1 htag)
  handlers a ha := (harmless_of_unsafeReason? (h a ha)).1
  addresses a ha := (harmless_of_unsafeReason? (h a ha)).2

/-- Neither a handler nor an address is among the attributes of controls and of the places of
islands. -/
theorem sanitised_of_names {tag : String} {attributes : Dict String} (htag : tag ∈ controlTags)
    (h : Dict.keys attributes ⊆ islandAttr :: controlNames) : Sanitised tag attributes := by
  have hall : ∀ name ∈ islandAttr :: controlNames,
      startsWith "on" (asciiLower name) = false ∧ asciiLower name ∉ addressAttributes := by
    decide
  have hname := fun a (ha : a ∈ attributes) => hall a.1 (h (List.mem_map_of_mem ha))
  exact ⟨.inr htag, fun a ha => (hname a ha).1, fun a ha hm => absurd hm (hname a ha).2⟩

theorem sanitised_of_drawn {ns : List Node} (h : Drawn Sanitised ns) :
    ∀ e ∈ Node.elementsAll ns, Sanitised e.1 e.2 := by
  induction h with
  | nil => exact List.forall_mem_nil _
  | append _ _ ih more =>
    rw [Node.elementsAll_append]
    exact List.forall_mem_append.2 ⟨ih, more⟩
  | text | raw => exact List.forall_mem_nil _
  | element h _ ih =>
    rw [Node.elementsAll_singleton]
    exact List.forall_mem_cons.2 ⟨h, ih⟩
  | control h _ ih =>
    rw [Node.elementsAll_singleton]
    exact List.forall_mem_cons.2
      ⟨sanitised_of_names h.tag (List.Subset.trans h.names (List.subset_cons_self _ _)), ih⟩
  | island id component _ _ ih =>
    rw [Node.elementsAll_singleton]
    have hnames : [islandAttr, componentAttr] ⊆ islandAttr :: controlNames := by decide
    have htag : "div" ∈ controlTags := by decide
    exact List.forall_mem_cons.2 ⟨sanitised_of_names htag hnames, ih⟩

/-- No element of a page runs a script, be its template publishable or not. -/
theorem sanitised_render (c : Config) (src : String) (r : Renderer) (scope : Scope) :
    ∀ e ∈ (r.render scope (compile c src).root).root.elements, Sanitised e.1 e.2 := by
  have hoffers : ∀ n ∈ (compile c src).root.walk, Offers Sanitised n := by
    intro n hn name htag
    obtain ⟨hknown, hsafe⟩ := Compile.safe_of_compile c src n hn name htag
    exact sanitised_of_safe hknown hsafe
  exact sanitised_of_drawn (drawn_draw r false scope hoffers)

/-- A link to a script with a blank in it, and a button. -/
def lureMarkup : String :=
  "<a href=\"java&#9;Script:run()\" title=\"here\">win</a><Button class=\"big\">win</Button>"

/-- Of the link to a script only the title is left. -/
theorem sanitised_lure :
    ("a", [("title", "here")]) ∈
        ((Renderer.ofConfig {}).render nobody (compile {} lureMarkup).root).root.elements ∧
      Sanitised "a" [("title", "here")] := by
  have hshown : ("a", [("title", "here")]) ∈
      ((Renderer.ofConfig {}).render nobody (compile {} lureMarkup).root).root.elements := by
    decide +kernel
  exact ⟨hshown, sanitised_render {} lureMarkup (.ofConfig {}) nobody _ hshown⟩

end Archipelago.Page
