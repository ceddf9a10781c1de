import Archipelago.Proofs.Compile.Extract
import Archipelago.Proofs.Template.Rereading

/-!
# Compiled templates that are published

All that a compilation makes has a text, so a compiled template can be loaded again unless its text
nests too deep. The limit on the depth of markup does not keep it from that: an element takes two
levels of the text.
-/

namespace Archipelago

open Template (Node)
open Value (RereadAs)

theorem Span.fits_of_within {size : Nat} {s : Span} (hsize : size < 2 ^ 63) (h : s.Within size) :
    s.Fits where
  start := by have := h.start; omega
  stop := by have := h.stop; omega
  line := by have := h.line; omega
  column := by have := h.column; omega

namespace Compile

theorem Started.plain {d : VariableDecl} (h : Started d) : d.initial.Plain := by
  unfold Started at h
  split at h
  · rw [h]
    exact .null
  · rename_i htype
    rcases h with hzero | ⟨text, htext⟩
    · exact hzero ▸ VarType.plain_zero htype
    · exact VarType.plain_parseInitial htext

theorem Declares.started {r : Rules} {declared : Dict VariableDecl} (h : Declares r [] declared) :
    ∀ e ∈ declared, Started e.2 := by
  induction h with
  | refl => exact List.forall_mem_nil _
  | snoc _ _ hd ih => exact List.forall_mem_append.2 ⟨ih, List.forall_mem_singleton.2 hd.started⟩

/-- All that a compilation makes has a text. A text in memory is shorter than `2 ^ 63` bytes. -/
theorem portable_of_compile {c : Config} {src : String} {t : Template}
    (hsize : src.utf8ByteSize < 2 ^ 63) (h : (compile c src).template? = some t) : t.Portable := by
  obtain ⟨raw, nodes, declared, hraw, hformed, -, hdeclares, hdecls, hextract⟩ := exists_tree h
  have hwithin := (Markup.bounded_parse hraw).within
  have hnode : ∀ n ∈ (Node.fragment nodes).walk, n.Portable := by
    rw [Node.walk_eq]
    refine List.forall_mem_cons.2 ⟨?_, fun n hn => ?_⟩
    · have hnowhere : Span.Fits {} := ⟨by decide, by decide, by decide, by decide⟩
      exact ⟨List.nodup_nil, hnowhere, List.forall_mem_nil _⟩
    · have hn := hformed.nodes n hn
      exact ⟨hn.attributes, Span.fits_of_within hsize (hwithin _ hn.place), hn.bindings⟩
  refine ⟨fun m hm => ?_, fun i hi => ?_, fun d hd => ?_⟩
  · rw [show t.root = _ from congrArg Prod.fst hextract] at hm
    obtain ⟨n, hn, hmarked⟩ := Island.Survey.exists_marked _ _ _ m hm
    have hportable := hnode n hn
    exact ⟨hmarked.attributes ▸ hportable.attributes, hmarked.span ▸ hportable.place,
      hmarked.bindings ▸ hportable.bindings⟩
  · rw [show t.islands = _ from congrArg Prod.snd hextract] at hi
    obtain ⟨n, hn, -, used, rfl⟩ :=
      Island.Survey.from_of_mem_mark _ (List.forall_mem_nil _) _ (List.Subset.refl _) i hi
    have hportable := hnode n hn
    refine ⟨.object ?_ fun f hf => ?_, fun m hm => ?_⟩
    · show (Dict.keys (Dict.mapValues Value.string n.attributes)).Nodup
      rw [Dict.keys, Dict.mapValues, List.map_map]
      exact hportable.attributes
    · obtain ⟨a, -, rfl⟩ := List.mem_map.1 hf
      exact .string _
    · replace hm : m ∈ Node.walk { n with island := _ } := hm
      rw [Node.walk_eq] at hm
      rcases List.mem_cons.1 hm with rfl | hm
      · exact ⟨hportable.attributes, hportable.place, hportable.bindings⟩
      · refine hnode m (Node.walk_subset _ n hn ?_)
        rw [Node.walk_eq]
        exact List.mem_cons_of_mem _ hm
  · rw [hdecls] at hd
    obtain ⟨e, he, rfl⟩ := List.mem_map.1 hd
    exact (hdeclares.started e he).plain

end Compile

namespace Template

/-- A template that compiles and does not nest too deep can be loaded again. What is loaded is the
template, but for its numbers, each of which is equal to the one it stands for if its text is. -/
theorem loads_of_compile {c : Config} {src : String} {t : Template}
    (hsize : src.utf8ByteSize < 2 ^ 63) (h : (compile c src).template? = some t)
    (hdepth : t.toJson.depth ≤ 127)
    (hn : ∀ x ∈ t.numbers, ∃ y, RereadAs x y ∧ (y == x) = true) :
    ∃ g : Float → Float, parse? t.text = some (t.mapNumbers g) ∧
      ∀ x ∈ t.numbers, (g x == x) = true := by
  choose! g hg using hn
  refine ⟨g, parse?_text (Compile.portable_of_compile hsize h) ?_ hdepth, fun x hx => (hg x hx).2⟩
  exact fun x hx => (hg x hx).1

/-- A page with two variables, one of them a number with a fraction. -/
def letterMarkup : String :=
  "<Var name=\"to\" initial=\"you\"/><Var name=\"pages\" type=\"number\" initial=\"2.5\"/>" ++
    "<p>Dear <ShowVar var=\"to\"/></p>"

/-- The text of two and a half is read as two and a half. -/
theorem rereadAs_letter : RereadAs 2.5 2.5 := by
  have hread : (Value.parse? (Value.number 2.5).jsonText).map Value.asNumber? =
      some (some 2.5) := by decide +kernel
  obtain ⟨v, hparse, hv⟩ := Option.map_eq_some_iff.1 hread
  cases v with
  | number y => exact Option.some.inj hv ▸ hparse
  | undefined | null | bool | string | array | object => cases hv

/-- A template of three elements that holds the number 2.5 is loaded again. -/
theorem loads_letter :
    ∃ t, (compile {} letterMarkup).template? = some t ∧ t.toJson.depth ≤ 127 ∧
      t.numbers = [2.5] ∧ RereadAs 2.5 2.5 ∧
      ∃ g : Float → Float, parse? t.text = some (t.mapNumbers g) ∧ (g 2.5 == 2.5) = true := by
  have ht : ((compile {} letterMarkup).template?.map fun t =>
      decide (t.toJson.depth ≤ 127 ∧ t.numbers = [2.5])) = some true := by
    decide +kernel
  obtain ⟨t, htemplate, ht⟩ := Option.map_eq_some_iff.1 ht
  obtain ⟨hdepth, hnumbers⟩ := of_decide_eq_true ht
  have hreread : ∀ x ∈ t.numbers, ∃ y, RereadAs x y ∧ (y == x) = true := by
    rw [hnumbers]
    exact List.forall_mem_singleton.2 ⟨2.5, rereadAs_letter, by decide⟩
  obtain ⟨g, hparse, hg⟩ := loads_of_compile (by decide +kernel) htemplate hdepth hreread
  rw [hnumbers] at hg
  exact ⟨t, htemplate, hdepth, hnumbers, rereadAs_letter, g, hparse,
    hg 2.5 (List.mem_singleton_self _)⟩

end Template

/-! ## Templates that cannot be loaded -/

namespace Island.Survey

variable (s : Survey)

mutual

/-- A tree without interactive nodes stays as it is. -/
theorem mark_of_idle (found : List Island) : (n : Node) →
    (∀ m ∈ n.walk, isInteractive s.reactive m = false) → s.mark found n = (n, found)
  | ⟨tag, attributes, children, span, bindings, island⟩, h => by
    rw [Node.walk_eq] at h
    obtain ⟨hn, hchildren⟩ := List.forall_mem_cons.1 h
    rw [mark_eq, hn, if_neg Bool.false_ne_true, markAll_of_idle found children hchildren]

theorem markAll_of_idle (found : List Island) : (ns : List Node) →
    (∀ m ∈ Node.walkAll ns, isInteractive s.reactive m = false) → s.markAll found ns = (ns, found)
  | [], _ => rfl
  | n :: ns, h => by
    obtain ⟨hn, hns⟩ := List.forall_mem_append.1 h
    unfold markAll
    rw [mark_of_idle found n hn]
    dsimp only
    rw [markAll_of_idle found ns hns]

end

end Island.Survey

namespace Compile

/-- A text without interactive elements compiles to its nodes. -/
theorem template?_of_idle {c : Config} {src : String} {raw : List Markup.RawNode}
    {found : List Node × List Node} {draft : Draft}
    (hsize : src.utf8ByteSize ≤ c.compiler.maxMarkupBytes)
    (hraw : Markup.parse c.compiler.maxDepth src = .ok raw)
    (hrun : siblings [] false ⟨[], 1⟩ raw (rules c raw) {} = (found, draft))
    (herrors : draft.errors = [])
    (hidle : ∀ m ∈ (Node.fragment found.2).walk, Island.isInteractive
      (Template.reactive (.fragment found.2) (draft.declared.map (·.2))) m = false) :
    (compile c src).template? =
      some ⟨templateId src, .fragment found.2, [], draft.declared.map (·.2)⟩ := by
  have hextract : Island.extract (templateId src) (draft.declared.map (·.2)) (.fragment found.2) =
      (.fragment found.2, []) :=
    Island.Survey.mark_of_idle _ [] _ hidle
  rw [compile_eq_byRules hsize hraw]
  unfold byRules
  rw [show ((siblings [] false ⟨[], 1⟩ raw).run (rules c raw)).run {} = (found, draft) from hrun]
  dsimp only
  rw [hextract, Compilation.template?, herrors]
  rfl

end Compile

namespace Template

/-- A template cannot be loaded if its tree cannot. -/
theorem ofJson?_eq_none {t : Template} {levels : Nat}
    (h : Node.ofJson? (t.root.toJson.readWithin levels) = none) :
    ofJson? (t.toJson.readWithin (levels + 1)) = none := by
  show (Option.bind (some t.id) fun _ =>
    (Node.ofJson? (t.root.toJson.readWithin levels)).bind _) = none
  rw [h]
  rfl

/-- As many elements as may be inside one another but one. -/
def towerChars : List Char :=
  (List.replicate 63 ['<', 'b', '>']).flatten ++ (List.replicate 63 ['<', '/', 'b', '>']).flatten

/-- Markup with one level less than the limit allows. -/
def towerMarkup : String := String.ofList towerChars

/-- Not all that compiles can be loaded again. -/
theorem not_loads_tower :
    ¬∀ (src : String) (t : Template), (compile {} src).template? = some t →
      ∃ t', parse? t.text = some t' := by
  intro h
  have hsize : towerMarkup.utf8ByteSize = 441 := by
    rw [← Text.byteLength_toList, towerMarkup, String.toList_ofList]
    decide +kernel
  have hparse : Markup.parse 64 towerMarkup =
      Markup.nodes 64 (towerChars.length + 1) ⟨[], []⟩ (.ofChars towerChars) := by
    unfold Markup.parse
    rw [towerMarkup, String.toList_ofList]
  have hraw : (Markup.parse 64 towerMarkup).toOption.map (fun raw =>
      let (found, draft) := Compile.siblings [] false ⟨[], 1⟩ raw (Compile.rules {} raw) {}
      let root := Node.fragment found.2
      draft.errors.isEmpty && draft.declared.isEmpty && root.numbers.isEmpty &&
        root.walk.all (fun m => !Island.isInteractive (reactive root []) m) &&
        (Node.ofJson? (root.toJson.readWithin 126)).isNone) = some true := by
    rw [hparse]
    decide +kernel
  obtain ⟨raw, hraw, hchecks⟩ := Option.map_eq_some_iff.1 hraw
  replace hraw := toOption_eq_some.1 hraw
  generalize hrun : Compile.siblings [] false ⟨[], 1⟩ raw (Compile.rules {} raw) {} = run at hchecks
  obtain ⟨found, draft⟩ := run
  simp only [Bool.and_eq_true, List.isEmpty_iff, List.all_eq_true, Bool.not_eq_true',
    Option.isNone_iff_eq_none] at hchecks
  obtain ⟨⟨⟨⟨herrors, hdecls⟩, hnumbers⟩, hidle⟩, hroot⟩ := hchecks
  have htemplate := Compile.template?_of_idle (c := {}) (hsize ▸ by decide) hraw hrun herrors
    (by rwa [hdecls])
  have hportable := Compile.portable_of_compile (hsize ▸ by decide) htemplate
  obtain ⟨t', ht'⟩ := h towerMarkup _ htemplate
  rw [parse?_text_eq (g := fun x => x) hportable ?_, ofJson?_eq_none hroot] at ht'
  · cases ht'
  · intro x hx
    rw [numbers, hnumbers, hdecls] at hx
    cases hx

end Template

end Archipelago
