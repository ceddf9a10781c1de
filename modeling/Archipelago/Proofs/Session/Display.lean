import Archipelago.Proofs.Compile.Sound
import Archipelago.Proofs.Page.Reads
import Archipelago.Proofs.Session.InStep

/-!
# Pages of compiled templates

The islands of a template that compiles are covered, so that they show at any time what the store
of their template holds. There are two ways to lose this. A field writes its variable by name, but
is refreshed by what the name reads as a path, which is nothing if it is too long for that. And of
an attribute that is repeated the first value is checked, but the last one is shown.
-/

namespace Archipelago

open Markup (RawNode)
open Template (Node)

namespace Session

/-! ## Settings -/

theorem refresh_config (s : Session) (template : String) (store : Store) (names : List String) :
    (s.refresh template store names).1.config = s.config := by
  rw [refresh_eq]
  show ((s.stale template names).foldl (fun s m => s.rerender store m) s).config = s.config
  induction s.stale template names generalizing s with
  | nil => rfl
  | cons m ms ih =>
    obtain ⟨-, -, -, -, hconfig⟩ := rerender_eq s store m
    exact (ih (s.rerender store m)).trans hconfig

/-- No call changes the settings. -/
theorem config_stable (c : Config) : Stable fun s => s.config = c where
  load t scope h := h
  pop time h := h
  advanceTo time h := h
  fire {s} {run} island h hrun := by
    rcases fire_cases s island hrun with he | ⟨m, template, st, u, storage, pending, -, -, -, -, he⟩
    · rwa [he]
    · rw [he]
      exact (refresh_config _ _ _ _).trans h
  take h _ _ := h
  ensure h he := by
    rcases ensureStore_eq_ok he with ⟨rfl, -⟩ | ⟨-, t, -, rfl⟩
    · exact h
    · exact h
  settle h _ _ _ := by
    obtain ⟨-, -, -, -, hconfig⟩ := settle_eq _ _ _ _ _ _
    exact hconfig.trans h
  fail {s placeholder} e h _ := by
    unfold Session.fail
    dsimp only
    split
    · exact h
    · exact h
  record island outcome h := h
  unmountOne {s} r id h := by
    unfold Session.unmountOne
    split
    · exact h
    · exact h
  dropStores h := h

/-! ## Islands of a template -/

/-- No island has come to life yet. -/
structure Unhydrated (s : Session) : Prop where
  mounted : s.mounted = []
  stores : s.stores = []

theorem Unhydrated.inStep {s : Session} (h : s.Unhydrated) : s.InStep := by
  have hm : ∀ id, Dict.get? s.mounted id = none := fun id => by rw [h.mounted]; rfl
  have hs : ∀ t, Dict.get? s.stores t = none := fun t => by rw [h.stores]; rfl
  refine ⟨⟨?_, ?_, ?_, ?_, ?_, ?_, ?_⟩, ?_⟩
  · rw [h.mounted]
    exact List.nodup_nil
  all_goals intros
  all_goals simp_all

/-- The mounted islands that a template drives, as far as they are such islands, show what its
store gives, and listen to it. -/
def Displays (s : Session) (such : Island → Prop) : Prop :=
  ∀ id m template, Dict.get? s.mounted id = some m → m.template = some template →
    such m.island → ∃ store, Dict.get? s.stores template = some store ∧
      s.document.innerHtml m.placeholder =
        Page.Node.htmlAll (s.renderer.renderIsland store.toScope m.island).children ∧
      m.handlers = (s.renderer.renderIsland store.toScope m.island).handlers

end Session

/-- The variable of each field is one that the island is refreshed by. -/
def Island.FieldsRead (i : Island) : Prop :=
  ∀ n ∈ i.node.walk, ∀ var ∈ n.inputVar?.toList, var ∈ Session.subtreeReads i.node

/-- Fields are read if their variables have names that are not too long for the default limits. -/
theorem Island.fieldsRead_of_names {i : Island} (h : ∀ n ∈ i.node.walk, ∀ var ∈ n.inputVar?.toList,
    Compile.isIdentifier var = true ∧ var.utf8ByteSize ≤ 1018) : i.FieldsRead := by
  intro n hn var hvar
  obtain ⟨hname, hsize⟩ := h n hn var hvar
  refine mem_addAllNew.2 (.inr (List.mem_flatMap.2 ⟨n, hn, ?_⟩))
  have hread := (Template.mem_pathReads_self hname).2 hsize
  have hfield := Option.mem_toList.1 hvar
  unfold Node.inputVar? at hfield
  unfold Node.reads
  split at hfield
  · rename_i hd
    rw [hd]
    dsimp only
    rw [hfield, Option.map_some, Option.getD_some]
    exact hread
  · rename_i hd
    rw [hd]
    dsimp only
    rw [hfield, Option.map_some, Option.getD_some]
    exact hread
  · cases hfield

/-- An island of a compiled template that repeats no attribute is covered. -/
theorem Island.covered_of_compile {c : Config} {src : String} {raw : List RawNode} {t : Template}
    (hraw : Markup.parse c.compiler.maxDepth src = .ok raw) (hd : RawNode.DistinctAll raw)
    (ht : (compile c src).template? = some t) (hc : c.eval.Le {}) {i : Island} (hi : i ∈ t.islands)
    (hfields : i.FieldsRead) {limits : EvalLimits} (hl : limits.Le {}) : i.Covered limits := by
  refine covers_of_checked hc hl [] (List.forall_mem_nil _) i.node
    ((Compile.checked_of_compile hraw hd ht).2 i hi)
    ⟨fun n hn dep hdep => ?_, fun n hn var hvar => ?_⟩
  · exact mem_addAllNew.2 (.inr (List.mem_flatMap.2 ⟨n, hn, hdep⟩))
  · exact hfields n hn var (Option.mem_toList.2 hvar)

namespace Session

/-- Whatever is called, the islands of a compiled template show what the stores hold, as long as
no attribute is repeated and all fields are read. -/
theorem displays_of_compile {c : Config} {src : String} {t : Template}
    (ht : (compile c src).template? = some t) (hc : c.eval.Le {})
    (hd : ∀ raw, Markup.parse c.compiler.maxDepth src = .ok raw → RawNode.DistinctAll raw)
    (hfields : ∀ i ∈ t.islands, i.FieldsRead) {s : Session} (hs : s.Unhydrated)
    (hl : s.config.eval.Le {}) (calls : List Call) :
    (s.run calls).Displays (· ∈ t.islands) := by
  obtain ⟨raw, hraw, -⟩ := Compile.exists_raw ht
  have hrun := inStep_stable.run hs.inStep calls
  have hconfig := (config_stable s.config).run rfl calls
  intro id m template hm hdriven hi
  obtain ⟨-, -, store, hstore⟩ := hrun.driven id m template hm hdriven
  have hcovered : m.island.Covered (s.run calls).config.eval := by
    rw [hconfig]
    exact Island.covered_of_compile hraw (hd raw hraw) ht hc hi (hfields _ hi) hl
  have hcurrent := hrun.current id m template store hm hdriven hstore hcovered List.not_mem_nil
  exact ⟨store, hstore, hcurrent.shows.innerHtml, hcurrent.handlers⟩

/-! ## Pages as they are served -/

/-- A page that is rendered from fresh variables, with its template known and nothing hydrated. -/
def served (t : Template) (resident : Resident) : Session :=
  let loaded : LoadedTemplate := ⟨t, "profile:1"⟩
  match ({} : Session).newStore loaded resident with
  | .error _ => {}
  | .ok store =>
    let page := ({} : Session).renderer.render store.toScope t.root
    let (document, container) := ({} : Document).addContainer "root"
    { document := document.mount container page.root, templates := [(t.id, loaded)] }

theorem served_unhydrated (t : Template) (resident : Resident) :
    (served t resident).Unhydrated ∧ (served t resident).config = {} ∧
      (served t resident).scheduler = {} := by
  unfold served
  dsimp only
  split
  · exact ⟨⟨rfl, rfl⟩, rfl, rfl⟩
  · exact ⟨⟨rfl, rfl⟩, rfl, rfl⟩

/-- A field and a text that shows the same variable. -/
def greetingMarkup : String :=
  "<Var name=\"n\" initial=\"old\"/><TextInput var=\"n\"/><ShowVar var=\"n\"/>"

/-- The calls of a visitor who enters something into the first island. -/
def visit (t : Template) (resident : Resident) : List Call :=
  [.hydrate "root" resident t.islands "12:00",
    .change ((t.islands.head?.map (·.id)).getD "") 0 (.string "new")]

/-- What is entered into the field is shown, since the variable of the field has a short name. -/
theorem displays_greeting :
    ∃ t, (compile {} greetingMarkup).template? = some t ∧
      (∀ raw, Markup.parse 64 greetingMarkup = .ok raw → RawNode.DistinctAll raw) ∧
      (∀ i ∈ t.islands, i.FieldsRead) ∧
      ((served t {}).run (visit t {})).Displays (· ∈ t.islands) := by
  have hd : ∀ raw ∈ (Markup.parse 64 greetingMarkup).toOption, RawNode.DistinctAll raw := by
    decide +kernel
  have hd' : ∀ raw, Markup.parse 64 greetingMarkup = .ok raw → RawNode.DistinctAll raw :=
    fun raw hraw => hd raw (by rw [hraw]; rfl)
  have ht : ((compile {} greetingMarkup).template?.map fun t =>
      decide (∀ i ∈ t.islands, ∀ n ∈ i.node.walk, ∀ var ∈ n.inputVar?.toList,
        Compile.isIdentifier var = true ∧ var.utf8ByteSize ≤ 1018)) = some true := by
    decide +kernel
  obtain ⟨t, htemplate, hnames⟩ := Option.map_eq_some_iff.1 ht
  have hfields : ∀ i ∈ t.islands, i.FieldsRead := fun i hi =>
    Island.fieldsRead_of_names (of_decide_eq_true hnames i hi)
  obtain ⟨hs, hconfig, -⟩ := served_unhydrated t {}
  refine ⟨t, htemplate, hd', hfields, ?_⟩
  exact displays_of_compile htemplate (.refl _) hd' hfields hs
    (by rw [hconfig]; exact .refl _) _

/-- A loop over the posts of the resident, with attributes that are given twice. -/
def repeatedMarkup : String :=
  "<Var name=\"n\" initial=\"old\"/><TextInput var=\"n\"/>"
    ++ "<ForEach var=\"$resident.posts\" item=\"a\" item=\"($vars\"><Bio/>"
    ++ "<ShowVar var=\"n\" var=\"($vars.n)\"/></ForEach>"

/-- Does the island show something else than its store gives? -/
def isStale (s : Session) (id : String) : Bool :=
  match Dict.get? s.mounted id with
  | none => false
  | some m =>
    match m.template.bind (Dict.get? s.stores) with
    | none => false
    | some store =>
      s.document.innerHtml m.placeholder ≠
        Page.Node.htmlAll (s.renderer.renderIsland store.toScope m.island).children

theorem not_displays_of_isStale {s : Session} {id : String} (h : s.isStale id = true) :
    ¬s.Displays fun _ => True := by
  intro hall
  unfold isStale at h
  split at h
  · contradiction
  · rename_i m hm
    split at h
    · contradiction
    · rename_i store hstore
      obtain ⟨template, ht, hstore⟩ := Option.bind_eq_some_iff.1 hstore
      obtain ⟨store', hstore', hshows, -⟩ := hall id m template hm ht True.intro
      obtain rfl := Option.some.inj (hstore.symm.trans hstore')
      exact of_decide_eq_true h hshows

/-- What is shown can be out of step with what the store holds. -/
theorem not_displays_repeated :
    ¬∀ (c : Config) (src : String) (t : Template), (compile c src).template? = some t →
      c.eval.Le {} → ∀ s : Session, s.Unhydrated → s.config.eval.Le {} →
        ∀ calls, (s.run calls).Displays fun _ => True := by
  intro h
  have ht : ((compile {} repeatedMarkup).template?.map fun t =>
      let posts : Resident := { posts := .array [.null] }
      ((served t posts).run (visit t posts)).isStale
        ((t.islands.getLast?.map (·.id)).getD "")) = some true := by
    decide +kernel
  obtain ⟨t, htemplate, hstale⟩ := Option.map_eq_some_iff.1 ht
  obtain ⟨hs, hconfig, -⟩ := served_unhydrated t { posts := .array [.null] }
  exact not_displays_of_isStale hstale
    (h {} repeatedMarkup t htemplate (.refl _) _ hs (by rw [hconfig]; exact .refl _) _)

end Session

end Archipelago
