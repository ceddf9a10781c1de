import Archipelago.Proofs.Compile.Steps

/-!
# Checks of elements

A node has the attributes that its tag has been checked with, as long as the tag repeats none. So
each element that is kept is a checked node.
-/

namespace Archipelago

namespace Markup

/-- No attribute is given twice. -/
def OpenTag.Distinct (t : OpenTag) : Prop := (t.attrs.map (·.name)).Nodup

namespace RawNode

mutual

/-- No element repeats an attribute name. -/
def Distinct : RawNode → Prop
  | .text .. => True
  | .element tag children => tag.Distinct ∧ DistinctAll children

def DistinctAll : List RawNode → Prop
  | [] => True
  | n :: ns => Distinct n ∧ DistinctAll ns

end

mutual

/-- Whether the names of attributes are different can be told tag by tag. -/
def decDistinct : (n : RawNode) → Decidable n.Distinct
  | .text .. => .isTrue True.intro
  | .element _ children => @instDecidableAnd _ _ (List.nodupDecidable _) (decDistinctAll children)

def decDistinctAll : (ns : List RawNode) → Decidable (DistinctAll ns)
  | [] => .isTrue True.intro
  | n :: ns => @instDecidableAnd _ _ (decDistinct n) (decDistinctAll ns)

end

instance : DecidablePred DistinctAll := decDistinctAll

end RawNode

end Markup

namespace Compile

open Markup (OpenTag RawNode)
open Template (Node splitPaths)

/-- The attributes of a node are those of its tag. -/
theorem attr?_nodeOf {tag : OpenTag} (h : tag.Distinct) (t : DslTag) (name : String) :
    (nodeOf tag t).attr? name = tag.attr? name := by
  have hn : ((tag.attrs.map fun a => (a.name, a.value)).map (·.1)).Nodup := by
    rw [List.map_map]
    exact h
  unfold nodeOf Node.attr? OpenTag.attr? Dict.ofList
  rw [Dict.get?_merge_of_nodup hn, Dict.get?_eq_find?, List.find?_map]
  simp only [Option.map_map, Dict.get?_nil, Option.or_none]
  rfl

variable {r : Rules} {known : String → Prop} (h : Admits r known) (tag : OpenTag)
variable (names : List String)

/-! ## Nodes without anything below them -/

/-- A node without children and events is checked by its attributes. -/
theorem checked_leaf {n : Node} (hn : n.children = []) (hb : n.bindings = [])
    (ha : (r.scoping known).CheckedAttributes names n) : (r.scoping known).Checked names n := by
  rw [Scoping.checked_iff, hn]
  exact ⟨⟨ha, by rw [hb]; exact fun _ hb => by cases hb⟩, True.intro⟩

theorem ensures_ignoreChildren (children : List RawNode) :
    Ensures r known (ignoreChildren tag children) fun _ => True := by
  unfold ignoreChildren
  split
  · exact ensures_warn _ _
  · exact .pure True.intro

theorem steady_ignoreChildren (children : List RawNode) :
    Steady r (ignoreChildren tag children) := by
  unfold ignoreChildren
  split
  · exact .warn _ _
  · exact .pure _

/-! ## Declarations -/

/-- An initial value is the zero of its type, or it has been read from a text. -/
theorem ensures_initialValue (type : VarType) :
    Ensures r known (initialValue tag type) fun v =>
      v = type.zero ∨ ∃ text, type.parseInitial text = some v := by
  unfold initialValue
  split
  · exact .pure (.inl rfl)
  · split
    · rename_i text _ _ v hv
      exact .pure (.inr ⟨text, hv⟩)
    · exact (ensures_report _ _ _ fun _ => True).andThen fun _ => .pure (.inl rfl)

theorem steady_initialValue (type : VarType) : Steady r (initialValue tag type) := by
  unfold initialValue
  split
  · exact .pure _
  · split
    · exact .pure _
    · exact (Steady.report _ _ _).bind fun _ => .pure _

/-- A declaration that is made can be carried out. -/
theorem ensures_plainDecl (name : String) {type : VarType} (ht : type ≠ .computed) :
    Ensures r known (plainDecl tag name type) (Declarable r known) :=
  (ensures_initialValue tag type).bind fun _ => .pure fun hv =>
    ⟨(if_neg ht).mpr hv, fun hcomputed => absurd hcomputed ht⟩

theorem steady_plainDecl (name : String) (type : VarType) : Steady r (plainDecl tag name type) :=
  (steady_initialValue tag type).bind fun _ => .pure _

theorem gives_plainDecl (name : String) (type : VarType) :
    Gives r (liftM (plainDecl tag name type)) (·.name = name) := by
  intro d decl hd
  rw [← Option.some.inj hd]

theorem declarable_urlParamDecl (name : String) : Declarable r known (urlParamDecl tag name) :=
  ⟨(if_neg nofun).mpr (.inr ⟨_, rfl⟩), nofun⟩

theorem gives_computedDecl (name : String) : Gives r (computedDecl tag name) (·.name = name) :=
  .bind fun src => .bind fun rules => by
    dsimp only
    split
    · exact .bind fun _ => .pure rfl
    · exact .bind fun _ => .pure rfl

theorem steady_computedDecl (name : String) : Steady r (computedDecl tag name).run := by
  refine Steady.attempt (.required tag _) fun src => ?_
  refine Steady.attempt (.lift .read) fun rules => ?_
  dsimp only
  split
  · exact .attempt (.lift (.report _ _ _)) fun _ => .pure _
  · exact .attempt (.lift (steady_checkExpr _ _ _)) fun _ => .pure _

/-- A declaration is put under its name, where that name is new. What its expression reads is
declared in the draft as it is. -/
theorem ensures_declare {x : Attempt VariableDecl} {d : Draft} {name : String}
    (hfresh : name ∉ Dict.keys d.declared) (hname : Gives r x (·.name = name))
    (hsteady : Steady r x.run)
    (hx : ∀ known, Admits r known → EnsuresSome r known x (Declarable r known)) :
    EnsuresFrom r known d (OptionT.run do
      let decl ← x
      modify fun d => { d with declared := Dict.insert d.declared name decl }
      return nodeOf tag .var) fun o => ∀ n, o = some n → (r.scoping known).Checked names n := by
  let before : String → Prop := fun dep => dep ∈ Dict.keys d.declared ∨ dep ∈ r.cyclic
  obtain ⟨hgrows, hdecl⟩ := hx before (fun _ => .inr) d
  have hdeclared : (x.run r d).2.declared = d.declared := hsteady d
  unfold EnsuresFrom
  rw [run_bind]
  cases ho : (x.run r d).1 with
  | none => exact ⟨hgrows, fun _ n hn => by cases hn⟩
  | some decl =>
    obtain rfl : decl.name = name := hname d decl ho
    refine ⟨hgrows.trans ⟨List.prefix_refl _, Nat.le_refl _, id,
      fun _ hn => Dict.mem_keys_insert.2 (.inr hn), ?_, ?_⟩, ?_⟩
    · intro hnamed e he
      rcases Dict.mem_insert he with rfl | he
      · rfl
      · exact hnamed e he
    · intro herrors
      have hclean : Clean before (x.run r d).2 := ⟨herrors, fun dep hdep => .inl (hdeclared ▸ hdep)⟩
      show Declares r _ (Dict.insert (x.run r d).2.declared decl.name decl)
      rw [hdeclared, Dict.insert_of_notMem hfresh]
      exact .snoc .refl hfresh (hdecl hclean decl ho)
    · rintro - n hn
      exact Option.some.inj hn ▸ checked_leaf names rfl rfl True.intro

include h

/-- A computed variable can be evaluated, as far as its text goes. -/
theorem ensures_computedDecl (name : String) :
    EnsuresSome r known (computedDecl tag name) (Declarable r known) := by
  refine (ensures_required tag "expression").andThen fun src => ?_
  refine (EnsuresSome.lift ensures_read).bind fun rules => ?_
  split
  · exact (EnsuresSome.lift (ensures_report _ _ _ fun _ => False)).bind fun _ =>
      .pure fun hf => hf.elim
  · rename_i hcyclic
    refine (EnsuresSome.lift (ensures_checkExpr h tag.span ⟨[], []⟩ src)).bind fun _ => .pure ?_
    rintro ⟨e, hparse, hclosed⟩ rfl
    refine ⟨(if_pos rfl).mpr rfl, fun _ => ⟨?_, src, e, rfl, hparse, fun dep hdep => ?_⟩⟩
    · simpa using hcyclic
    · exact (hclosed.vars dep hdep).resolve_left List.not_mem_nil

omit h in
/-- A declaration draws nothing that would need to be checked. -/
theorem ensures_declaration (children : List RawNode) :
    EnsuresSome r known (declaration tag children) ((r.scoping known).Checked names) := by
  refine (ensures_required tag "name").andThen fun name => ?_
  split
  · exact ensures_reject _ _ _ _
  · dsimp only
    split
    · exact ensures_reject _ _ _ _
    · rename_i type _
      refine fun d => EnsuresFrom.get ?_
      split
      · exact ensures_reject _ _ _ _ d
      · rename_i hfresh
        have hfresh' : name ∉ Dict.keys (ignoreChildren tag children r d).2.declared := by
          rw [steady_ignoreChildren (r := r) tag children d]
          exact fun hn => hfresh (Dict.contains_iff.2 hn)
        refine EnsuresFrom.goOn (ensures_ignoreChildren tag children) ?_
        split
        · exact ensures_declare tag names hfresh' (gives_computedDecl tag name)
            (steady_computedDecl tag name) fun _ h => ensures_computedDecl h tag name
        · exact ensures_declare tag names hfresh' (.pure rfl) (.pure _) fun _ _ =>
            .pure (declarable_urlParamDecl tag name)
        · rename_i ht _
          exact ensures_declare tag names hfresh' (gives_plainDecl tag name _)
            (.lift (steady_plainDecl tag name _)) fun _ _ => .lift (ensures_plainDecl tag name ht)

/-! ## Display and conditions -/

/-- The path of a text is checked. It is the one that is shown if no attribute stands twice. -/
theorem ensures_showVar : EnsuresSome r known (showVar tag names) fun n =>
    tag.Distinct → (r.scoping known).Checked names n := by
  refine (ensures_required tag "var").bind fun path => ?_
  refine (EnsuresSome.lift (ensures_checkPath h tag.span names path)).bind fun _ => ?_
  have hend : EnsuresSome r known (pure (nodeOf tag .showVar)) fun n =>
      (r.scoping known).CheckedPath names path → tag.attr? "var" = some path →
        tag.Distinct → (r.scoping known).Checked names n := by
    refine .pure fun hpath hvar hd => checked_leaf names rfl rfl ?_
    show ∀ other, (nodeOf tag .showVar).attr? "var" = some other → _
    intro other ho
    rw [attr?_nodeOf hd, hvar] at ho
    exact Option.some.inj ho ▸ hpath
  dsimp only
  split
  · split
    · exact (EnsuresSome.lift (ensures_report _ _ _ fun _ => True)).andThen fun _ => hend
    · exact hend
  · exact hend

/-- An attribute that has been checked is an expression over what is there. -/
theorem ensures_checkAttrExpr (attr : String) :
    Ensures r known (checkAttrExpr tag names attr) fun _ =>
      ∀ src, tag.attr? attr = some src → (r.scoping known).CheckedExpr names src := by
  unfold checkAttrExpr
  split
  · rename_i src hsrc
    exact (ensures_checkExpr h tag.span ⟨names, []⟩ src).mono fun _ hs other ho =>
      Option.some.inj (hsrc.symm.trans ho) ▸ hs
  · rename_i hnone
    exact .pure fun other ho => by cases hnone.symm.trans ho

theorem ensures_checkAttrPath (attr : String) :
    Ensures r known (checkAttrPath tag names attr) fun _ =>
      ∀ path, tag.attr? attr = some path → (r.scoping known).CheckedPath names path := by
  unfold checkAttrPath
  split
  · rename_i path hpath
    exact (ensures_checkPath h tag.span names path).mono fun _ hp other ho =>
      Option.some.inj (hpath.symm.trans ho) ▸ hp
  · rename_i hnone
    exact .pure fun other ho => by cases hnone.symm.trans ho

theorem ensures_checkAttrPaths (attr : String) :
    Ensures r known (checkAttrPaths tag names attr) fun _ =>
      ∀ paths, tag.attr? attr = some paths →
        ∀ path ∈ splitPaths paths, (r.scoping known).CheckedPath names path := by
  unfold checkAttrPaths
  split
  · rename_i paths hpaths
    exact (ensures_checkPaths h tag.span names _).mono fun _ hp other ho =>
      Option.some.inj (hpaths.symm.trans ho) ▸ hp
  · rename_i hnone
    exact .pure fun other ho => by cases hnone.symm.trans ho

omit h in
/-- If no attribute stands twice, the node has the attributes of the tag. -/
theorem checkedCondition_nodeOf (hd : tag.Distinct) (t : DslTag) :
    (r.scoping known).CheckedCondition names (nodeOf tag t) ↔
      (∀ src, tag.attr? "condition" = some src → (r.scoping known).CheckedExpr names src) ∧
      (∀ path, tag.attr? "var" = some path → (r.scoping known).CheckedPath names path) ∧
      (∀ paths, tag.attr? "and" = some paths →
        ∀ path ∈ splitPaths paths, (r.scoping known).CheckedPath names path) ∧
      (∀ paths, tag.attr? "or" = some paths →
        ∀ path ∈ splitPaths paths, (r.scoping known).CheckedPath names path) ∧
      ∀ path, tag.attr? "not" = some path → (r.scoping known).CheckedPath names path := by
  simp only [Scoping.CheckedCondition, attr?_nodeOf hd]

/-- The condition of a branch is checked, whatever its other attributes are. -/
theorem ensures_checkCondition (t : DslTag) :
    Ensures r known (checkCondition tag names) fun _ =>
      tag.Distinct → (r.scoping known).CheckedCondition names (nodeOf tag t) := by
  unfold checkCondition
  refine (ensures_checkAttrExpr h tag names "condition").bind fun _ => ?_
  refine (ensures_checkAttrPath h tag names "var").bind fun _ => ?_
  have hend : Ensures r known (if (!conditionAttrs.any fun attr => (tag.attr? attr).isSome) = true
      then report .missingAttribute tag.span
        s!"<{tag.name}> needs a condition, var, and, or or not attribute"
      else pure ()) fun _ => True := by
    split
    · exact ensures_report _ _ _ _
    · exact .pure True.intro
  have hlists : Ensures r known (do
      checkAttrPaths tag names "and"
      checkAttrPaths tag names "or"
      checkAttrPath tag names "not"
      if !conditionAttrs.any fun attr => (tag.attr? attr).isSome then
        report .missingAttribute tag.span
          s!"<{tag.name}> needs a condition, var, and, or or not attribute") fun _ =>
      _ ∧ _ ∧ _ :=
    (ensures_checkAttrPaths h tag names "and").bind fun _ =>
      (ensures_checkAttrPaths h tag names "or").bind fun _ =>
        (ensures_checkAttrPath h tag names "not").bind fun _ =>
          hend.mono fun _ _ hnot hor hand => ⟨hand, hor, hnot⟩
  dsimp only
  split
  · split
    · exact (ensures_report _ _ _ fun _ => True).andThen fun _ =>
        hlists.mono fun _ hrest hvar hcond hd =>
      (checkedCondition_nodeOf tag names hd t).2 ⟨hcond, hvar, hrest⟩
    · exact hlists.mono fun _ hrest hvar hcond hd =>
      (checkedCondition_nodeOf tag names hd t).2 ⟨hcond, hvar, hrest⟩
  · exact hlists.mono fun _ hrest hvar hcond hd =>
      (checkedCondition_nodeOf tag names hd t).2 ⟨hcond, hvar, hrest⟩

/-- A switch goes by its path, or else by its expression. -/
def CheckedSubject (sc : Scoping) (names : List String) : Option String → Option String → Prop
  | some path, _ => sc.CheckedPath names path
  | none, some src => sc.CheckedExpr names src
  | none, none => True

/-- What a switch is about is checked. -/
theorem ensures_checkSwitch : Ensures r known (checkSwitch tag names) fun _ =>
    tag.Distinct → (r.scoping known).CheckedAttributes names (nodeOf tag .switch) := by
  have hchecked : Ensures r known (checkSwitch tag names) fun _ =>
      CheckedSubject (r.scoping known) names (tag.attr? "var") (tag.attr? "value") := by
    unfold checkSwitch
    cases tag.attr? "var" with
    | some path => exact ensures_checkPath h tag.span names path
    | none =>
      cases tag.attr? "value" with
      | some src => exact ensures_checkExpr h tag.span ⟨names, []⟩ src
      | none => exact ensures_report _ _ _ _
  refine hchecked.mono fun _ hs hd => ?_
  show CheckedSubject (r.scoping known) names ((nodeOf tag .switch).attr? "var")
    ((nodeOf tag .switch).attr? "value")
  rw [attr?_nodeOf hd, attr?_nodeOf hd]
  exact hs

omit h in
theorem ensures_safeAttributes (attrs : List Markup.Attr) :
    Ensures r known (safeAttributes tag attrs) fun _ => True := by
  induction attrs with
  | nil => exact .pure True.intro
  | cons a attrs ih =>
    unfold safeAttributes
    split
    · exact (ensures_warn _ _).andThen fun _ => ih
    · exact ih.andThen fun _ => .pure True.intro

/-! ## Events -/

/-- The steps of each binding are checked. -/
theorem ensures_eventBindings (event : EventTag) (kind : EventKind) (depth : Nat)
    (children : List RawNode) :
    Ensures r known (eventBindings event kind names depth children) fun bindings =>
      ∀ b ∈ bindings, (r.scoping known).CheckedSteps names b.actions := by
  induction children with
  | nil => exact .pure fun _ hb => by cases hb
  | cons n rest ih =>
    cases n with
    | text content span => exact ih
    | element tag children =>
      unfold eventBindings
      split
      · refine (ensures_countElement tag.span depth).andThen fun counted => ?_
        split
        · refine (ensures_steps h names false (depth + 1) children).bind fun actions => ?_
          exact ih.bind fun more => .pure fun hmore hactions =>
            List.forall_mem_cons.2 ⟨hactions, hmore⟩
        · exact ih
      · exact ih

/-- The actions of a field are checked. -/
theorem ensures_fieldBindings (depth : Nat) (children : List RawNode) :
    Ensures r known (fieldBindings tag names depth children) fun bindings =>
      ∀ b ∈ bindings, (r.scoping known).CheckedSteps names b.actions := by
  induction children with
  | nil => exact .pure fun _ hb => by cases hb
  | cons n rest ih =>
    have hmisplaced : Ensures r known (fieldBindings.misplaced tag n) fun _ => True :=
      ensures_report _ _ _ _
    unfold fieldBindings
    dsimp only
    split
    · rename_i event children
      split
      · refine (ensures_countElement event.span depth).andThen fun counted => ?_
        split
        · refine (ensures_steps h names false (depth + 1) children).bind fun actions => ?_
          exact ih.bind fun more => .pure fun hmore hactions =>
            List.forall_mem_cons.2 ⟨hactions, hmore⟩
        · exact ih
      · exact hmisplaced.andThen fun _ => ih
    · split
      · exact hmisplaced.andThen fun _ => ih
      · exact ih

/-- The variable of a field is known. -/
theorem ensures_inputField {t : DslTag} (ht : t = .textInput ∨ t = .checkbox)
    (depth : Nat) (children : List RawNode) :
    EnsuresSome r known (inputField tag t names depth children) fun n =>
      tag.Distinct → (r.scoping known).Checked names n := by
  refine (ensures_required tag "var").bind fun var => ?_
  refine (EnsuresSome.lift (ensures_checkName h tag.span var)).bind fun found => ?_
  have hend : EnsuresSome r known (do
      return { nodeOf tag t with
        bindings := ← fieldBindings tag names (depth + 1) children }) fun n =>
        known var → tag.attr? "var" = some var → tag.Distinct →
          (r.scoping known).Checked names n := by
    refine (EnsuresSome.lift (ensures_fieldBindings h tag names (depth + 1) children)).bind
      fun bindings => .pure fun hbindings hknown hvar hd => ?_
    have hattr : ∀ other, (nodeOf tag t).attr? "var" = some other → known other := by
      intro other ho
      rw [attr?_nodeOf hd, hvar] at ho
      exact Option.some.inj ho ▸ hknown
    refine (Scoping.checked_iff _ _).2 ⟨⟨?_, hbindings⟩, True.intro⟩
    rcases ht with rfl | rfl <;> exact hattr
  split
  · refine (EnsuresSome.lift (ensures_isReadOnly var)).andThen fun readOnly => ?_
    split
    · exact (EnsuresSome.lift (ensures_report _ _ _ fun _ => True)).andThen fun _ => hend
    · exact hend
  · exact hend

theorem ensures_lifecycle (e : EventTag) (depth : Nat) (children : List RawNode) :
    EnsuresSome r known (lifecycle tag e names depth children)
      ((r.scoping known).Checked names) := by
  refine (EnsuresSome.lift (ensures_steps h names false (depth + 1) children)).bind
    fun actions => ?_
  have hkept : ∀ b : EventBinding, b.actions = actions →
      EnsuresSome r known (pure { nodeOf tag (.event e) with bindings := [b] }) fun n =>
        (r.scoping known).CheckedSteps names actions → (r.scoping known).Checked names n := by
    intro b hb
    refine .pure fun hactions => (Scoping.checked_iff _ _).2 ⟨⟨True.intro, ?_⟩, True.intro⟩
    intro other ho
    rw [List.mem_singleton.1 ho, hb]
    exact hactions
  split
  · refine (ensures_required tag "interval").andThen fun raw => ?_
    refine (EnsuresSome.lift ensures_read).andThen fun rules => ?_
    dsimp only
    split
    · exact hkept _ rfl
    · exact ensures_reject _ _ _ _
  · exact hkept _ rfl

/-- An element without children of its own that is kept is checked. -/
theorem ensures_leaf (t : DslTag) (depth : Nat) (children : List RawNode) :
    EnsuresSome r known (leaf tag t names depth children) fun n =>
      tag.Distinct → (r.scoping known).Checked names n := by
  have hmisplaced : ∀ place, EnsuresSome r known (misplaced tag place) fun n =>
      tag.Distinct → (r.scoping known).Checked names n := fun place => ensures_reject _ _ _ _
  cases t with
  | var => exact (ensures_declaration tag names children).mono fun _ hn _ => hn
  | showVar => exact ensures_showVar h tag names
  | textInput => exact ensures_inputField h tag names (.inl rfl) depth children
  | checkbox => exact ensures_inputField h tag names (.inr rfl) depth children
  | event e =>
    cases e with
    | onMount => exact (ensures_lifecycle h tag names .onMount depth children).mono fun _ hn _ => hn
    | onInterval =>
      exact (ensures_lifecycle h tag names .onInterval depth children).mono fun _ hn _ => hn
    | onClick | onChange => exact hmisplaced _
  | resident t =>
    exact (EnsuresSome.lift (ensures_ignoreChildren tag children)).andThen fun _ =>
      .pure fun _ => checked_leaf names rfl rfl True.intro
  | action | caseBranch | defaultBranch | ifChain | ifBranch | elseIfBranch | elseBranch =>
    exact hmisplaced _
  | switch | forEach | button => exact .failure

end Compile

end Archipelago
