import Archipelago.Proofs.Compile.Formed
import Archipelago.Proofs.Value.Rereading
import Archipelago.Template

/-!
# Templates that are read back

A template is read back from its text, its numbers as they are read from theirs, if what it is made
of has a text: no missing data among its values, no attribute twice, and counts that fit 64 bits.
Trees and actions are read as deep as their documents nest.
-/

namespace Archipelago

open Json (Restores)
open Value (RereadAs)

variable {g : Float → Float} {levels : Nat}

/-! ## Actions -/

namespace Operand

/-- The numbers of an operand. Those in an expression stay in its text. -/
def numbers : Operand → List Float
  | value v => v.numbers
  | expr _ => []

def mapNumbers (g : Float → Float) : Operand → Operand
  | value v => value (v.mapNumbers g)
  | expr src => expr src

theorem reread {o : Operand} (h : o.Formed) (hn : ∀ x ∈ o.numbers, RereadAs x (g x)) :
    o.toJson.Printable ∧ ofJson? o.toJson.reread = some (o.mapNumbers g) := by
  cases o with
  | value v =>
    obtain ⟨hprintable, hread⟩ := Value.reread_plain v h hn
    refine ⟨Json.printable_variant hprintable, ?_⟩
    show (Value.ofJson? v.toJson.reread).map value = _
    rw [hread]
    rfl
  | expr src => exact ⟨Json.printable_variant True.intro, rfl⟩

end Operand

namespace Action

mutual

/-- All numbers in an action. -/
def numbers : Action → List Float
  | set _ v | increment _ v | decrement _ v | push _ v | removeAt _ v | objectSet _ _ v => v.numbers
  | cycle _ values => Value.numbersItems values
  | sequence steps => numbersAll steps
  | toggle _ | reset _ | pop _ | merge .. | clone .. | filter .. | sort .. | transform .. | find ..
  | sum .. | delay _ => []

def numbersAll : List Action → List Float
  | [] => []
  | a :: as => numbers a ++ numbersAll as

end

mutual

/-- An action with other numbers in it. -/
def mapNumbers (g : Float → Float) : Action → Action
  | set var v => set var (v.mapNumbers g)
  | increment var v => increment var (v.mapNumbers g)
  | decrement var v => decrement var (v.mapNumbers g)
  | push var v => push var (v.mapNumbers g)
  | removeAt var v => removeAt var (v.mapNumbers g)
  | objectSet var path v => objectSet var path (v.mapNumbers g)
  | cycle var values => cycle var (Value.mapItems g values)
  | sequence steps => sequence (mapNumbersAll g steps)
  | a => a

def mapNumbersAll (g : Float → Float) : List Action → List Action
  | [] => []
  | a :: as => mapNumbers g a :: mapNumbersAll g as

end

/-- A delay is read back from its field. -/
theorem restores_delay {j : Json} {ms : Nat} (h : Restores (levels + 1) Json.nat64? j ms)
    (hj : j.depth = 0) :
    Restores (levels + 1) (ofJsonWithin (levels + 1)) (.variant "Delay" (.object [("ms", j)]))
      (delay ms) := by
  refine ⟨Json.printable_variant ⟨h.printable, True.intro⟩, fun _ => ?_⟩
  show (Json.nat64? j.reread).bind _ = _
  rw [h.read_reread (by omega)]
  rfl

mutual

/-- An action is read back, sequences as deep as there are levels. -/
theorem restores : (levels : Nat) → (a : Action) → a.Formed → (∀ x ∈ a.numbers, RereadAs x (g x)) →
    Restores (levels + 1) (ofJsonWithin (levels + 1)) a.toJson (a.mapNumbers g)
  | levels, set var v, h, hn | levels, increment var v, h, hn | levels, decrement var v, h, hn
  | levels, push var v, h, hn | levels, removeAt var v, h, hn => by
    obtain ⟨hprintable, hread⟩ := Operand.reread h hn
    refine ⟨Json.printable_variant ⟨True.intro, hprintable, True.intro⟩, fun _ => ?_⟩
    show (Operand.ofJson? v.toJson.reread).bind _ = _
    rw [hread]
    rfl
  | levels, objectSet var path v, h, hn => by
    obtain ⟨hprintable, hread⟩ := Operand.reread h hn
    refine ⟨Json.printable_variant ⟨True.intro, True.intro, hprintable, True.intro⟩, fun _ => ?_⟩
    show (Operand.ofJson? v.toJson.reread).bind _ = _
    rw [hread]
    rfl
  | levels, cycle var values, h, hn => by
    rw [toJson, Value.toJsonItems_eq_map]
    have hvalues : Restores ((Json.array (Value.toJsonItems values)).depth + 1) _ _ _ :=
      Value.restores_items h hn
    refine ⟨Json.printable_variant ⟨True.intro, hvalues.printable, True.intro⟩, fun _ => ?_⟩
    show (Json.list? Value.ofJson? (Json.array (Value.toJsonItems values)).reread).bind _ = _
    rw [hvalues.read_reread (Nat.lt_succ_self _)]
    rfl
  | levels, sequence steps, h, hn => by
    have hsteps := restoresAll levels steps h hn
    refine ⟨Json.printable_variant hsteps.printable, fun hdepth => ?_⟩
    show (Json.list? (ofJsonWithin levels) (Json.array (toJsonAll steps)).reread).map sequence = _
    rw [hsteps.read_reread]
    · rfl
    · exact Nat.lt_trans (Json.depth_lt_variant _ _) hdepth
  | levels, toggle var, _, _ | levels, reset var, _, _ | levels, pop var, _, _ =>
    ⟨Json.printable_variant ⟨True.intro, True.intro⟩, fun _ => rfl⟩
  | levels, merge sources target, _, _ => by
    have hsources : Restores ((Json.array (sources.map .string)).depth + 1) _ _ _ :=
      Json.restores_strings sources
    refine ⟨Json.printable_variant ⟨hsources.printable, True.intro, True.intro⟩, fun _ => ?_⟩
    show (Json.list? Json.string? (Json.array (sources.map .string)).reread).bind _ = _
    rw [hsources.read_reread (Nat.lt_succ_self _)]
    rfl
  | levels, clone var target, _, _ =>
    ⟨Json.printable_variant ⟨True.intro, True.intro, True.intro⟩, fun _ => rfl⟩
  | levels, filter var target text, _, _ | levels, transform var target text, _, _
  | levels, find var target text, _, _ =>
    ⟨Json.printable_variant ⟨True.intro, True.intro, True.intro, True.intro⟩, fun _ => rfl⟩
  | levels, sort var target key order, _, _ => by
    cases key with
    | none =>
      refine ⟨Json.printable_variant ⟨True.intro, True.intro, True.intro, True.intro, True.intro⟩,
        fun _ => ?_⟩
      cases order <;> rfl
    | some key =>
      refine ⟨Json.printable_variant ⟨True.intro, True.intro, True.intro, True.intro, True.intro⟩,
        fun _ => ?_⟩
      cases order <;> rfl
  | levels, sum var target expression, _, _ => by
    cases expression with
    | none =>
      exact ⟨Json.printable_variant ⟨True.intro, True.intro, True.intro, True.intro⟩, fun _ => rfl⟩
    | some src =>
      exact ⟨Json.printable_variant ⟨True.intro, True.intro, True.intro, True.intro⟩, fun _ => rfl⟩
  | levels, delay ms, h, _ => by
    rw [toJson]
    exact restores_delay (Json.restores_nat64 h) rfl

theorem restoresAll : (levels : Nat) → (as : List Action) → FormedAll as →
    (∀ x ∈ numbersAll as, RereadAs x (g x)) →
    Restores (levels + 1) (Json.list? (ofJsonWithin levels)) (.array (toJsonAll as))
      (mapNumbersAll g as)
  | _, [], _, _ => Json.restores_nil
  | 0, a :: as, h, hn => by
    obtain ⟨hna, hnas⟩ := List.forall_mem_append.1 hn
    refine ⟨⟨(restores 0 a h.1 hna).printable, (restoresAll 0 as h.2 hnas).printable⟩,
      fun hdepth => ?_⟩
    rw [Json.depth] at hdepth
    omega
  | levels + 1, a :: as, h, hn => by
    obtain ⟨hna, hnas⟩ := List.forall_mem_append.1 hn
    exact (restores levels a h.1 hna).cons (restoresAll (levels + 1) as h.2 hnas)

end

end Action

namespace EventKind

theorem restores (k : EventKind) : Restores levels ofJson? (.string k.name) k :=
  ⟨True.intro, fun _ => by cases k <;> rfl⟩

end EventKind

namespace EventBinding

/-- All numbers in the actions of a binding. -/
def numbers (b : EventBinding) : List Float := Action.numbersAll b.actions

def mapNumbers (g : Float → Float) (b : EventBinding) : EventBinding :=
  { b with actions := Action.mapNumbersAll g b.actions }

/-- The fields of a binding as they are written. -/
def members (b : EventBinding) : Dict (Option Json) :=
  [("kind", some (.string b.kind.name)), ("interval_ms", b.intervalMs.map fun ms : Nat => .int ms),
    ("actions", some (.array (Action.toJsonAll b.actions)))]

theorem toJson_eq (b : EventBinding) : b.toJson = .fields b.members := by
  rw [toJson, members]
  cases b.intervalMs <;> rfl

/-- A binding is read back from its text, with its numbers as they are read. -/
theorem restores {b : EventBinding} (h : b.Formed) (hn : ∀ x ∈ b.numbers, RereadAs x (g x)) :
    Restores 128 ofJson? b.toJson (b.mapNumbers g) := by
  have hinterval : ∀ ms ∈ b.intervalMs, Restores 128 Json.nat64? (.int ms) ms := fun ms hms =>
    Json.restores_nat64 (h.interval ms hms)
  have hactions : Restores 128 (Json.list? Action.ofJson?) _ _ :=
    (Action.restoresAll 128 b.actions h.actions hn).mono (Nat.le_succ _)
  rw [toJson_eq]
  constructor
  · refine Json.printable_fields ⟨Json.printable_some True.intro, fun j hj => ?_,
      Json.printable_some hactions.printable, True.intro⟩
    obtain ⟨ms, hms, rfl⟩ := Option.map_eq_some_iff.1 hj
    exact (hinterval ms hms).printable
  · intro hdepth
    obtain ⟨r, hr, ho⟩ := Json.exists_record b.members
      (show ["kind", "interval_ms", "actions"].Nodup by decide) hdepth
    replace hr : Json.record? ["kind", "interval_ms", "actions"] _ = some r := hr
    have hkind : r.required "kind" EventKind.ofJson? = some b.kind :=
      ho.required rfl (EventKind.restores b.kind)
    have hms : r.optionalDefault "interval_ms" Json.nat64? = some b.intervalMs :=
      ho.optionalDefault rfl fun ms hms => ⟨hinterval ms hms, nofun⟩
    have hsteps : r.required "actions" (Json.list? Action.ofJson?) = some _ :=
      ho.required rfl hactions
    unfold ofJson?
    simp only [hr, hkind, hms, hsteps, Option.bind_eq_bind, Option.bind_some]
    rfl

end EventBinding

/-! ## Trees -/

namespace Span

/-- The counts of a place fit 64 bits. -/
structure Fits (s : Span) : Prop where
  start : s.start < 2 ^ 64
  stop : s.stop < 2 ^ 64
  line : s.line < 2 ^ 64
  column : s.column < 2 ^ 64

/-- The fields of a span as they are written. -/
def members (s : Span) : Dict (Option Json) :=
  [("start", some (.int s.start)), ("end", some (.int s.stop)), ("line", some (.int s.line)),
    ("column", some (.int s.column))]

/-- A place is read back from its text. -/
theorem restores {s : Span} (h : s.Fits) : Restores levels ofJson? s.toJson s := by
  have hstart : Restores levels _ _ _ := Json.restores_nat64 h.start
  have hstop : Restores levels _ _ _ := Json.restores_nat64 h.stop
  have hline : Restores levels _ _ _ := Json.restores_nat64 h.line
  have hcolumn : Restores levels _ _ _ := Json.restores_nat64 h.column
  constructor
  · exact ⟨hstart.printable, hstop.printable, hline.printable, hcolumn.printable, True.intro⟩
  · intro hdepth
    obtain ⟨r, hr, ho⟩ := Json.exists_record s.members
      (show ["start", "end", "line", "column"].Nodup by decide) hdepth
    replace hr : Json.record? ["start", "end", "line", "column"] s.toJson.reread = some r := hr
    have hstart' : r.required "start" Json.nat64? = some s.start := ho.required rfl hstart
    have hstop' : r.required "end" Json.nat64? = some s.stop := ho.required rfl hstop
    have hline' : r.required "line" Json.nat64? = some s.line := ho.required rfl hline
    have hcolumn' : r.required "column" Json.nat64? = some s.column := ho.required rfl hcolumn
    unfold ofJson?
    simp only [hr, hstart', hstop', hline', hcolumn', Option.bind_eq_bind, Option.bind_some]

end Span

/-- A tag is read back from its name. -/
theorem DslTag.ofJson?_name (t : DslTag) : ofJson? (.string t.name) = some t := by
  cases t with
  | event e => cases e <;> rfl
  | action a => cases a <;> rfl
  | resident r => cases r <;> rfl
  | _ => rfl

namespace Template

theorem NodeTag.restores (t : NodeTag) : Restores levels ofJson? t.toJson t := by
  cases t with
  | fragment => exact ⟨True.intro, fun _ => rfl⟩
  | text content | html name => exact ⟨Json.printable_variant True.intro, fun _ => rfl⟩
  | dsl t =>
    refine ⟨Json.printable_variant True.intro, fun _ => ?_⟩
    show (DslTag.ofJson? (.string t.name)).map dsl = _
    rw [DslTag.ofJson?_name]
    rfl

namespace Node

mutual

/-- All numbers in a tree. -/
def numbers : Node → List Float
  | ⟨_, _, children, _, bindings, _⟩ => bindings.flatMap EventBinding.numbers ++ numbersAll children

def numbersAll : List Node → List Float
  | [] => []
  | n :: ns => numbers n ++ numbersAll ns

end

mutual

/-- A tree with other numbers in it. -/
def mapNumbers (g : Float → Float) : Node → Node
  | ⟨tag, attributes, children, span, bindings, island⟩ =>
    ⟨tag, attributes, mapNumbersAll g children, span, bindings.map (·.mapNumbers g), island⟩

def mapNumbersAll (g : Float → Float) : List Node → List Node
  | [] => []
  | n :: ns => mapNumbers g n :: mapNumbersAll g ns

end

/-- A node that can be carried by a document, what is below it left aside. -/
structure Portable (n : Node) : Prop where
  attributes : (Dict.keys n.attributes).Nodup
  place : n.span.Fits
  bindings : ∀ b ∈ n.bindings, b.Formed

/-- The members of its document, some of which are left out. -/
def members (n : Node) : Dict (Option Json) :=
  [("tag", some n.tag.toJson), ("attributes", listField n.attributes Json.ofTexts),
    ("children", if n.children.isEmpty then none else some (.array (toJsonAll n.children))),
    ("span", some n.span.toJson),
    ("bindings", listField n.bindings fun bs => .array (bs.map EventBinding.toJson)),
    ("island", n.island.map .string)]

theorem toJson_eq (n : Node) : n.toJson = .fields n.members := by
  obtain ⟨tag, attributes, children, span, bindings, island⟩ := n
  rw [toJson, members]

theorem eq_nil_of_listField {α : Type} {items : List α} {encode : List α → Json}
    (h : listField items encode = none) : items = [] := by
  unfold listField at h
  split at h
  · rename_i hempty
    exact List.isEmpty_iff.1 hempty
  · cases h

/-- A list that is written is written in full. -/
theorem eq_of_listField {α : Type} {items : List α} {encode : List α → Json} {j : Json}
    (h : listField items encode = some j) : j = encode items := by
  unfold listField at h
  split at h
  · cases h
  · exact (Option.some.inj h).symm

theorem mapM_texts (d : Dict String) :
    (Json.rereadMembers (Dict.mapValues .string d)).mapM
      (fun m => (Json.string? m.2).map (m.1, ·)) = some d := by
  induction d with
  | nil => rfl
  | cons e d ih =>
    show (Json.rereadMembers ((e.1, .string e.2) :: Dict.mapValues .string d)).mapM _ = _
    rw [Json.rereadMembers, List.mapM_cons, ih]
    rfl

/-- A dictionary of texts is read back. -/
theorem restores_texts {d : Dict String} (h : (Dict.keys d).Nodup) :
    Restores levels (Json.dict? Json.string?) (Json.ofTexts d) d where
  printable := Json.printable_object fun m hm => by
    obtain ⟨e, -, rfl⟩ := List.mem_map.1 hm
    exact True.intro
  read_reread _ := by
    show Option.map Dict.ofList (List.mapM _ (Json.rereadMembers (Dict.mapValues .string d))) = _
    rw [mapM_texts, Option.map_some, Dict.ofList_of_nodup h]

theorem mapNumbers_eq (n : Node) : n.mapNumbers g =
    { n with
      children := mapNumbersAll g n.children
      bindings := n.bindings.map (·.mapNumbers g) } := by
  obtain ⟨tag, attributes, children, span, bindings, island⟩ := n
  rw [mapNumbers]

/-- A node is read back if its children and what its events do are. -/
theorem restores_node {n : Node} (hp : n.Portable)
    (hchildren : Restores (levels + 1) (Json.list? (ofJsonWithin levels))
      (.array (toJsonAll n.children)) (mapNumbersAll g n.children))
    (hbindings : ∀ b ∈ n.bindings,
      Restores (levels + 1) EventBinding.ofJson? b.toJson (b.mapNumbers g)) :
    Restores (levels + 1) (ofJsonWithin (levels + 1)) n.toJson (n.mapNumbers g) := by
  have hattributes : ∀ j ∈ listField n.attributes Json.ofTexts,
      Restores (levels + 1) (Json.dict? Json.string?) j n.attributes := fun j hj =>
    eq_of_listField hj ▸ restores_texts hp.attributes
  have hevents : ∀ j ∈ listField n.bindings fun bs => .array (bs.map EventBinding.toJson),
      Restores (levels + 1) (Json.list? EventBinding.ofJson?) j (n.bindings.map (·.mapNumbers g)) :=
    fun j hj => eq_of_listField hj ▸ (Restores.list hbindings).mono (Nat.le_succ _)
  have hbelow : ∀ j ∈ if n.children.isEmpty then none else some (.array (toJsonAll n.children)),
      Restores (levels + 1) (Json.list? (ofJsonWithin levels)) j (mapNumbersAll g n.children) := by
    intro j hj
    split at hj
    · cases hj
    · exact Option.some.inj hj ▸ hchildren
  have hspan : Restores (levels + 1) Span.ofJson? _ _ := Span.restores hp.place
  have htag : Restores (levels + 1) NodeTag.ofJson? _ _ := NodeTag.restores n.tag
  rw [toJson_eq, mapNumbers_eq]
  constructor
  · refine Json.printable_fields ⟨Json.printable_some htag.printable,
      fun j hj => (hattributes j hj).printable, fun j hj => (hbelow j hj).printable,
      Json.printable_some hspan.printable, fun j hj => (hevents j hj).printable, fun j hj => ?_,
      True.intro⟩
    obtain ⟨id, -, rfl⟩ := Option.map_eq_some_iff.1 hj
    exact True.intro
  · intro hdepth
    obtain ⟨r, hr, ho⟩ := Json.exists_record n.members (show fieldNames.Nodup by decide) hdepth
    replace hr : Json.record? fieldNames (Json.fields n.members).reread = some r := hr
    have htag' : r.required "tag" NodeTag.ofJson? = some n.tag := ho.required rfl htag
    have hattributes' : r.withDefault "attributes" [] (Json.dict? Json.string?) =
        some n.attributes := ho.withDefault rfl eq_nil_of_listField hattributes
    have hbelow' : r.withDefault "children" [] (Json.list? (ofJsonWithin levels)) =
        some (mapNumbersAll g n.children) := by
      refine ho.withDefault rfl (fun hnone => ?_) hbelow
      split at hnone
      · rename_i hempty
        rw [List.isEmpty_iff.1 hempty, mapNumbersAll]
      · cases hnone
    have hspan' : r.withDefault "span" {} Span.ofJson? = some n.span :=
      ho.withDefault rfl nofun fun j hj => Option.some.inj hj ▸ hspan
    have hevents' : r.withDefault "bindings" [] (Json.list? EventBinding.ofJson?) =
        some (n.bindings.map (·.mapNumbers g)) :=
      ho.withDefault rfl (fun hnone => by rw [eq_nil_of_listField hnone]; rfl) hevents
    have hisland : r.optionalDefault "island" Json.string? = some n.island :=
      ho.optionalDefault rfl fun id _ => ⟨Json.restores_string id, nofun⟩
    unfold ofJsonWithin
    simp only [hr, htag', hattributes', hbelow', hspan', hevents', hisland, Option.bind_eq_bind,
      Option.bind_some]

mutual

/-- A tree is read back, as deep as there are levels. -/
theorem restores : (levels : Nat) → levels < 128 → (n : Node) → (∀ m ∈ n.walk, m.Portable) →
    (∀ x ∈ n.numbers, RereadAs x (g x)) →
    Restores (levels + 1) (ofJsonWithin (levels + 1)) n.toJson (n.mapNumbers g)
  | levels, hle, ⟨tag, attributes, children, span, bindings, island⟩, hp, hn => by
    obtain ⟨hevents, hbelow⟩ := List.forall_mem_append.1 hn
    obtain ⟨hnode, hwalk⟩ := List.forall_mem_cons.1 hp
    refine restores_node hnode (restoresAll levels hle children hwalk hbelow) fun b hb => ?_
    refine (EventBinding.restores (hnode.bindings b hb) fun x hx => hevents x ?_).mono hle
    exact List.mem_flatMap_of_mem hb hx

theorem restoresAll : (levels : Nat) → levels < 128 → (ns : List Node) →
    (∀ m ∈ walkAll ns, m.Portable) → (∀ x ∈ numbersAll ns, RereadAs x (g x)) →
    Restores (levels + 1) (Json.list? (ofJsonWithin levels)) (.array (toJsonAll ns))
      (mapNumbersAll g ns)
  | _, _, [], _, _ => Json.restores_nil
  | 0, hle, n :: ns, hp, hn => by
    obtain ⟨hpn, hpns⟩ := List.forall_mem_append.1 hp
    obtain ⟨hnn, hnns⟩ := List.forall_mem_append.1 hn
    refine ⟨⟨(restores 0 hle n hpn hnn).printable, (restoresAll 0 hle ns hpns hnns).printable⟩,
      fun hdepth => ?_⟩
    rw [Json.depth] at hdepth
    omega
  | levels + 1, hle, n :: ns, hp, hn => by
    obtain ⟨hpn, hpns⟩ := List.forall_mem_append.1 hp
    obtain ⟨hnn, hnns⟩ := List.forall_mem_append.1 hn
    exact (restores levels (by omega) n hpn hnn).cons (restoresAll (levels + 1) hle ns hpns hnns)

end

end Node

end Template

/-! ## Templates -/

namespace Island

/-- All numbers of an island, those of its props first. -/
def numbers (i : Island) : List Float := Value.numbersFields i.props ++ i.node.numbers

def mapNumbers (g : Float → Float) (i : Island) : Island :=
  { i with props := Value.mapFields g i.props, node := i.node.mapNumbers g }

/-- What an island must be to be read from its text. -/
structure Portable (i : Island) : Prop where
  props : (Value.object i.props).Plain
  node : ∀ n ∈ i.node.walk, n.Portable

/-- The fields of an island as they are written. -/
def members (i : Island) : Dict (Option Json) :=
  [("id", some (.string i.id)), ("component", some (.string i.component)),
    ("props", some (Value.object i.props).toJson), ("node", some i.node.toJson),
    ("template_id", some (.string i.templateId))]

/-- An island is read back from its text, with its numbers as they are read. -/
theorem restores {i : Island} (h : i.Portable) (hn : ∀ x ∈ i.numbers, RereadAs x (g x)) :
    Restores 128 ofJson? i.toJson (i.mapNumbers g) := by
  obtain ⟨hnprops, hnnode⟩ := List.forall_mem_append.1 hn
  have hprops : Restores 128 propsOfJson? _ _ := Value.restores_fields h.props hnprops
  have hnode : Restores 128 Template.Node.ofJson? _ _ :=
    Template.Node.restores 127 (by omega) i.node h.node hnnode
  constructor
  · exact ⟨True.intro, True.intro, hprops.printable, hnode.printable, True.intro, True.intro⟩
  · intro hdepth
    obtain ⟨r, hr, ho⟩ := Json.exists_record i.members
      (show ["id", "component", "props", "node", "template_id"].Nodup by decide) hdepth
    replace hr : Json.record? ["id", "component", "props", "node", "template_id"]
      i.toJson.reread = some r := hr
    have hid : r.required "id" Json.string? = some i.id := ho.required rfl (Json.restores_string _)
    have hcomponent : r.required "component" Json.string? = some i.component :=
      ho.required rfl (Json.restores_string _)
    have hprops' : r.withDefault "props" [] propsOfJson? = some (Value.mapFields g i.props) :=
      ho.withDefault rfl nofun fun j hj => Option.some.inj hj ▸ hprops
    have hnode' : r.required "node" Template.Node.ofJson? = some (i.node.mapNumbers g) :=
      ho.required rfl hnode
    have hid' : r.required "template_id" Json.string? = some i.templateId :=
      ho.required rfl (Json.restores_string _)
    unfold ofJson?
    simp only [hr, hid, hcomponent, hprops', hnode', hid', Option.bind_eq_bind, Option.bind_some]
    rfl

end Island

namespace VariableDecl

/-- The numbers of an initial value. -/
def numbers (d : VariableDecl) : List Float := d.initial.numbers

def mapNumbers (g : Float → Float) (d : VariableDecl) : VariableDecl :=
  { d with initial := d.initial.mapNumbers g }

/-- The fields of a declaration as they are written. -/
def members (d : VariableDecl) : Dict (Option Json) :=
  [("name", some (.string d.name)), ("var_type", some (.string d.type.name)),
    ("initial", some d.initial.toJson), ("persist", some (.bool d.persist)),
    ("expression", d.expression.map .string), ("param", d.param.map .string)]

/-- A declaration is read back from its text. -/
theorem restores {d : VariableDecl} (h : d.initial.Plain) (hn : ∀ x ∈ d.numbers, RereadAs x (g x)) :
    Restores levels ofJson? d.toJson (d.mapNumbers g) := by
  have hvalue : Restores levels Value.ofJson? _ _ := Value.restores_plain h hn
  have htype : Restores levels VarType.ofJson? (.string d.type.name) d.type :=
    ⟨True.intro, fun _ => VarType.ofName?_name d.type⟩
  constructor
  · have htext {o : Option String} : ∀ j ∈ o.map Json.string, j.Printable := by
      intro j hj
      obtain ⟨s, -, rfl⟩ := Option.map_eq_some_iff.1 hj
      exact True.intro
    have hmembers : Json.PrintableFields d.members :=
      ⟨Json.printable_some True.intro, Json.printable_some True.intro,
        Json.printable_some hvalue.printable, Json.printable_some True.intro, htext, htext,
        True.intro⟩
    exact Json.printable_fields hmembers
  · intro hdepth
    obtain ⟨r, hr, ho⟩ := Json.exists_record d.members
      (show ["name", "var_type", "initial", "persist", "expression", "param"].Nodup by decide)
        hdepth
    replace hr : Json.record? ["name", "var_type", "initial", "persist", "expression", "param"]
      d.toJson.reread = some r := hr
    have hname : r.required "name" Json.string? = some d.name :=
      ho.required rfl (Json.restores_string _)
    have htype' : r.required "var_type" VarType.ofJson? = some d.type := ho.required rfl htype
    have hvalue' : r.required "initial" Value.ofJson? = some (d.initial.mapNumbers g) :=
      ho.required rfl hvalue
    have hpersist : r.withDefault "persist" false Json.bool? = some d.persist :=
      ho.withDefault rfl nofun fun j hj => Option.some.inj hj ▸ Json.restores_bool _
    have hexpression : r.optionalDefault "expression" Json.string? = some d.expression :=
      ho.optionalDefault rfl fun src _ => ⟨Json.restores_string src, nofun⟩
    have hparam : r.optionalDefault "param" Json.string? = some d.param :=
      ho.optionalDefault rfl fun param _ => ⟨Json.restores_string param, nofun⟩
    unfold ofJson?
    simp only [hr, hname, htype', hvalue', hpersist, hexpression, hparam, Option.bind_eq_bind,
      Option.bind_some]
    rfl

end VariableDecl

namespace Template

/-- The numbers of a template, in its tree, its islands and its declarations. -/
def numbers (t : Template) : List Float :=
  t.root.numbers ++ t.islands.flatMap Island.numbers ++ t.decls.flatMap VariableDecl.numbers

/-- The template with other numbers. -/
def mapNumbers (g : Float → Float) (t : Template) : Template :=
  { t with
    root := t.root.mapNumbers g
    islands := t.islands.map (·.mapNumbers g)
    decls := t.decls.map (·.mapNumbers g) }

/-- A template that has a text. -/
structure Portable (t : Template) : Prop where
  root : ∀ n ∈ t.root.walk, n.Portable
  islands : ∀ i ∈ t.islands, i.Portable
  decls : ∀ d ∈ t.decls, d.initial.Plain

/-- The fields of a template as they are written. -/
def members (t : Template) : Dict (Option Json) :=
  [("template_id", some (.string t.id)), ("ast", some t.root.toJson),
    ("islands", some (.array (t.islands.map Island.toJson))),
    ("declarations", some (.array (t.decls.map VariableDecl.toJson)))]

/-- A template that is portable is read back from its text, with its numbers as they are read. -/
theorem restores {t : Template} (h : t.Portable) (hn : ∀ x ∈ t.numbers, RereadAs x (g x)) :
    Restores 128 ofJson? t.toJson (t.mapNumbers g) := by
  obtain ⟨hn, hndecls⟩ := List.forall_mem_append.1 hn
  obtain ⟨hnroot, hnislands⟩ := List.forall_mem_append.1 hn
  have hroot : Restores 128 Node.ofJson? _ _ := Node.restores 127 (by omega) t.root h.root hnroot
  have hislands : Restores 128 (Json.list? Island.ofJson?) (.array (t.islands.map Island.toJson))
      (t.islands.map (·.mapNumbers g)) :=
    (Restores.list fun i hi => Island.restores (h.islands i hi)
      fun x hx => hnislands x (List.mem_flatMap_of_mem hi hx)).mono (Nat.le_succ _)
  have hdecls : Restores 128 (Json.list? VariableDecl.ofJson?)
      (.array (t.decls.map VariableDecl.toJson)) (t.decls.map (·.mapNumbers g)) :=
    (Restores.list fun d hd => VariableDecl.restores (h.decls d hd)
      fun x hx => hndecls x (List.mem_flatMap_of_mem hd hx)).mono (Nat.le_succ _)
  constructor
  · exact ⟨True.intro, hroot.printable, hislands.printable, hdecls.printable, True.intro⟩
  · intro hdepth
    obtain ⟨r, hr, ho⟩ := Json.exists_record t.members
      (show ["template_id", "ast", "islands", "declarations"].Nodup by decide) hdepth
    replace hr : Json.record? ["template_id", "ast", "islands", "declarations"]
      t.toJson.reread = some r := hr
    have hid : r.required "template_id" Json.string? = some t.id :=
      ho.required rfl (Json.restores_string _)
    have hroot' : r.required "ast" Node.ofJson? = some (t.root.mapNumbers g) :=
      ho.required rfl hroot
    have hislands' : r.required "islands" (Json.list? Island.ofJson?) = some _ :=
      ho.required rfl hislands
    have hdecls' : r.required "declarations" (Json.list? VariableDecl.ofJson?) = some _ :=
      ho.required rfl hdecls
    unfold ofJson?
    simp only [hr, hid, hroot', hislands', hdecls', Option.bind_eq_bind, Option.bind_some]
    rfl

/-- What is read from the text of a template. -/
theorem parse?_text_eq {t : Template} (h : t.Portable) (hn : ∀ x ∈ t.numbers, RereadAs x (g x)) :
    parse? t.text = ofJson? (t.toJson.readWithin 127) := by
  rw [parse?, text, Json.parse_text (restores h hn).printable, Option.bind_some]

/-- A template that does not nest too deep is read back from its text, its numbers as they are read
from theirs. -/
theorem parse?_text {t : Template} (h : t.Portable) (hn : ∀ x ∈ t.numbers, RereadAs x (g x))
    (hdepth : t.toJson.depth ≤ 127) : parse? t.text = some (t.mapNumbers g) := by
  rw [parse?_text_eq h hn, Json.readWithin_eq_reread hdepth]
  exact (restores h hn).read_reread (Nat.lt_succ_of_le hdepth)

end Template

end Archipelago
