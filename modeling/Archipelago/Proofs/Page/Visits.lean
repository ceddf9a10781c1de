import Archipelago.Proofs.Page.Coverage
import Archipelago.Proofs.Template.Walk

/-!
# Where a rendering goes

A rendering goes from a node to those below it, and a loop goes to its body once for each item. All
handlers that it draws are made at a node on its way, and each evaluation that fails does so at such
a node. So what holds along the way holds of what is drawn.
-/

namespace Archipelago

namespace Template.Node

/-- A node has one tag. -/
theorem isDsl_of_ne {n : Node} {t u : DslTag} (h : n.isDsl t = true) (hne : t ≠ u) :
    n.isDsl u = false :=
  decide_eq_false fun hu => hne (Option.some.inj ((of_decide_eq_true h).symm.trans hu))

end Template.Node

namespace Page

/-- The nodes that a rendering can come to, each with its view there. -/
inductive Visits (v₀ : View) (root : Template.Node) : View → Template.Node → Prop where
  | root : Visits v₀ root v₀ root
  | child {v : View} {n c : Template.Node} :
      Visits v₀ root v n → n.isDsl .forEach = false → c ∈ n.children → Visits v₀ root v c
  /-- A chain leads past its branches. -/
  | branch {v : View} {n c g : Template.Node} :
      Visits v₀ root v n → n.isDsl .ifChain = true → c ∈ n.children → g ∈ c.children →
        Visits v₀ root v g
  | round {v : View} {n c : Template.Node} (item : Value) (index : Nat) :
      Visits v₀ root v n → n.isDsl .forEach = true → c ∈ n.children →
        Visits v₀ root (v.bindItem n item index) c

theorem Visits.mem_walk {v₀ v : View} {root n : Template.Node} (h : Visits v₀ root v n) :
    n ∈ root.walk := by
  induction h with
  | root => exact root.mem_walk_self
  | child _ _ hc ih => exact Template.Node.mem_walk_of_child ih hc
  | branch _ _ hc hg ih =>
    exact Template.Node.mem_walk_of_child (Template.Node.mem_walk_of_child ih hc) hg
  | round _ _ _ _ hc ih => exact Template.Node.mem_walk_of_child ih hc

/-- An evaluation that the rendering of the node itself asks for fails. -/
def Fails (v : View) (n : Template.Node) (e : EvalError) : Prop :=
  match n.dsl? with
  | some .showVar | some .forEach => ∃ path, n.attr? "var" = some path ∧ v.evalPath path = .error e
  | some .switch =>
    match n.attr? "var", n.attr? "value" with
    | some path, _ => v.evalPath path = .error e
    | none, some src => v.evalExpr src = .error e
    | none, none => False
  | some .ifChain => ∃ c ∈ n.children, c.isDsl .elseBranch = false ∧ v.holds c = .error e
  | _ => False

/-- The rendering of the node itself makes the handler. -/
def Makes (v : View) (n : Template.Node) (h : Handler) : Prop :=
  match n.dsl? with
  | some .button =>
    h = { kind := .click, actions := bindingActions n, locals := v.locals.flatten }
  | some .textInput | some .checkbox =>
    ∃ var checkbox, n.attr? "var" = some var ∧
      h = { kind := .change, actions := bindingActions n, input := some ⟨var, checkbox⟩
            locals := v.locals.flatten }
  | some (.event .onMount) | some (.event .onInterval) =>
    ∃ b ∈ n.bindings,
      h = { kind := b.kind, intervalMs := b.intervalMs, actions := b.actions
            locals := v.locals.flatten }
  | _ => False

/-- A handler of anything but a click or a change comes from a binding of the node. -/
theorem Makes.of_binding {v : View} {n : Template.Node} {h : Handler} (hm : Makes v n h)
    (hclick : h.kind ≠ .click) (hchange : h.kind ≠ .change) :
    ∃ b ∈ n.bindings, h = { kind := b.kind, intervalMs := b.intervalMs, actions := b.actions
                            locals := v.locals.flatten } := by
  unfold Makes at hm
  split at hm
  · exact absurd (congrArg Handler.kind hm) hclick
  · obtain ⟨var, checkbox, -, rfl⟩ := hm
    exact absurd rfl hchange
  · obtain ⟨var, checkbox, -, rfl⟩ := hm
    exact absurd rfl hchange
  · exact hm
  · exact hm
  · cases hm

/-! ## Drawings -/

/-- What a drawing has gathered: handlers of one kind, and no errors but those of another. -/
structure Drawing.Only (P : Handler → Prop) (Q : EvalError → Prop) (d : Drawing) : Prop where
  handlers : ∀ h ∈ d.handlers, P h
  islandHandlers : ∀ e ∈ d.islandHandlers, ∀ h ∈ e.2, P h
  warnings : ∀ w ∈ d.warnings, ∀ e, w.trouble.error? = some e → Q e

theorem Drawing.Only.mono {P P' : Handler → Prop} {Q Q' : EvalError → Prop} {d : Drawing}
    (h : d.Only P Q) (hP : ∀ h, P h → P' h) (hQ : ∀ e, Q e → Q' e) : d.Only P' Q' where
  handlers x hx := hP x (h.handlers x hx)
  islandHandlers e he x hx := hP x (h.islandHandlers e he x hx)
  warnings w hw e he := hQ e (h.warnings w hw e he)

/-- To draw this adds nothing else. -/
def Adds (P : Handler → Prop) (Q : EvalError → Prop) {α : Type} (x : Draw α) : Prop :=
  ∀ d : Drawing, d.Only P Q → (x.run d).2.Only P Q

section

variable {P : Handler → Prop} {Q : EvalError → Prop} {α β : Type}

namespace Adds

theorem pure (a : α) : Adds P Q (Pure.pure a : Draw α) := fun _ h => h

theorem bind {x : Draw α} {f : α → Draw β} (hx : Adds P Q x) (hf : ∀ a, Adds P Q (f a)) :
    Adds P Q (x >>= f) := fun d h => hf (x.run d).1 _ (hx d h)

theorem mapM {f : α → Draw β} (xs : List α) (h : ∀ x ∈ xs, Adds P Q (f x)) :
    Adds P Q (xs.mapM f) := by
  induction xs with
  | nil => exact .pure []
  | cons x xs ih =>
    rw [List.mapM_cons]
    refine (h x List.mem_cons_self).bind fun y => ?_
    exact (ih fun x hx => h x (List.mem_cons_of_mem _ hx)).bind fun ys => .pure _

theorem warn (n : Template.Node) {t : Trouble} (h : ∀ e, t.error? = some e → Q e) :
    Adds P Q (Page.warn n t) := fun d hd =>
  ⟨hd.handlers, hd.islandHandlers, fun w hw => by
    rcases List.mem_append.1 hw with hw | hw
    · exact hd.warnings w hw
    · rw [List.mem_singleton.1 hw]
      exact h⟩

theorem addHandler {h : Handler} (hh : P h) : Adds P Q (Page.addHandler h) := fun d hd =>
  ⟨fun h' hm => by
    rcases List.mem_append.1 hm with hm | hm
    · exact hd.handlers h' hm
    · rw [List.mem_singleton.1 hm]
      exact hh, hd.islandHandlers, hd.warnings⟩

/-- The handlers inside an island become those of the island. -/
theorem enclose {content : Draw (List Node)} (h : Adds P Q content) (island : Option String)
    (inside : Bool) (component : String) :
    Adds P Q (Page.enclose island inside component content) := by
  unfold Page.enclose
  split
  · intro d hd
    have hin := h { d with handlers := [] } ⟨List.forall_mem_nil _, hd.islandHandlers, hd.warnings⟩
    refine ⟨hd.handlers, fun e he => ?_, hin.warnings⟩
    rcases Dict.mem_insert he with rfl | he
    · exact hin.handlers
    · exact hin.islandHandlers e he
  · exact h

end Adds

/-! ## What the parts of a page add -/

section Parts

variable {v : View} {n : Template.Node}

theorem adds_condition (h : ∀ e, v.holds n = .error e → Q e) : Adds P Q (condition v n) := by
  unfold condition
  split
  · exact .pure _
  · rename_i e he
    refine (Adds.warn n fun e' he' => ?_).bind fun _ => .pure _
    obtain rfl := Option.some.inj he'
    exact h _ he

theorem adds_showVar (h : ∀ path e, n.attr? "var" = some path → v.evalPath path = .error e → Q e) :
    Adds P Q (showVar v n) := by
  unfold showVar
  split
  · exact .pure _
  · rename_i path hpath
    dsimp only
    split
    · exact .pure _
    · rename_i e he
      refine (Adds.warn n fun e' he' => ?_).bind fun _ => .pure _
      obtain rfl := Option.some.inj he'
      exact h path _ hpath he

theorem adds_switchValue (hn : n.dsl? = some .switch) (h : ∀ e, Fails v n e → Q e) :
    Adds P Q (switchValue v n) := by
  unfold Fails at h
  rw [hn] at h
  unfold switchValue
  dsimp only at h ⊢
  split
  · exact .pure _
  · rename_i e he
    refine (Adds.warn n fun e' he' => ?_).bind fun _ => .pure _
    obtain rfl := Option.some.inj he'
    refine h _ ?_
    cases hvar : n.attr? "var" with
    | some path =>
      rw [hvar] at he
      exact he
    | none =>
      cases hvalue : n.attr? "value" with
      | some src =>
        rw [hvar, hvalue] at he
        exact he
      | none =>
        rw [hvar, hvalue] at he
        cases he

theorem adds_roundItems (r : Renderer)
    (h : ∀ path e, n.attr? "var" = some path → v.evalPath path = .error e → Q e) :
    Adds P Q (roundItems r v n) := by
  unfold roundItems
  split
  · exact .pure _
  · rename_i path hpath
    have hitems : Adds P Q (loopItems v n path) := by
      unfold loopItems
      split
      · exact .pure _
      · dsimp only
        split
        · exact (Adds.warn n fun e he => by cases he).bind fun _ => .pure _
        · exact .pure _
      · rename_i e he
        refine (Adds.warn n fun e' he' => ?_).bind fun _ => .pure _
        obtain rfl := Option.some.inj he'
        exact h path _ hpath he
    refine hitems.bind fun items => ?_
    dsimp only
    split
    · exact (Adds.warn n fun e he => by cases he).bind fun _ => .pure _
    · exact .pure _

theorem adds_field (checkbox : Bool)
    (h : ∀ var, n.attr? "var" = some var →
      P { kind := .change, actions := bindingActions n, input := some ⟨var, checkbox⟩
          locals := v.locals.flatten }) : Adds P Q (field v n checkbox) := by
  unfold field
  split
  · exact .pure _
  · rename_i var hvar
    exact (Adds.addHandler (h var hvar)).bind fun place => .pure _

theorem adds_buttonAttributes
    (h : P { kind := .click, actions := bindingActions n, locals := v.locals.flatten }) :
    Adds P Q (buttonAttributes v n) := by
  unfold buttonAttributes
  dsimp only
  split
  · exact .pure _
  · exact (Adds.addHandler h).bind fun place => .pure _

theorem adds_lifecycle (bs : List EventBinding)
    (h : ∀ b ∈ bs, P { kind := b.kind, intervalMs := b.intervalMs, actions := b.actions
                       locals := v.locals.flatten }) : Adds P Q (lifecycle v bs) := by
  induction bs with
  | nil => exact .pure _
  | cons b bs ih =>
    refine Adds.bind ?_ fun _ => ih fun b hb => h b (List.mem_cons_of_mem _ hb)
    exact (Adds.addHandler (h b List.mem_cons_self)).bind fun _ => .pure _

end Parts

/-! ## Trees -/

/-- What is shown of a switch is no loop. -/
theorem not_forEach_of_chosen {value : Value} {cs : List Template.Node} {c : Template.Node}
    (h : chosen value cs c = true) : c.isDsl .forEach = false := by
  unfold chosen at h
  split at h
  · exact Template.Node.isDsl_of_ne ((Bool.and_eq_true _ _).mp h).1 (by decide)
  · exact Template.Node.isDsl_of_ne h (by decide)

section Body

variable {v : View} {n : Template.Node}

/-- What a node adds, if it is known what those below it add. -/
theorem adds_body (r : Renderer) (inner : Bool) (hP : ∀ h, Makes v n h → P h)
    (hQ : ∀ e, Fails v n e → Q e)
    (hnodes : n.isDsl .forEach = false → Adds P Q (nodes r inner v n.children))
    (hround : n.isDsl .forEach = true → ∀ item index,
      Adds P Q (nodes r inner (v.bindItem n item index) n.children))
    (hbranch : n.isDsl .ifChain = true → Adds P Q (firstBranch r inner v n.children))
    (hwhere : n.isDsl .switch = true → ∀ value,
      Adds P Q (firstWhere r inner v (chosen value n.children) n.children)) :
    Adds P Q (body r inner v n) := by
  obtain ⟨tag, attributes, children, span, bindings, island⟩ := n
  cases tag with
  | fragment => exact hnodes rfl
  | text content => exact .pure _
  | html name => exact (hnodes rfl).bind fun _ => .pure _
  | dsl t =>
    cases t with
    | showVar => exact adds_showVar fun path e hpath he => hQ e ⟨path, hpath, he⟩
    | ifChain => exact hbranch rfl
    | switch => exact (adds_switchValue rfl hQ).bind fun value => hwhere rfl value
    | forEach =>
      have hitems := adds_roundItems (P := P) (Q := Q) r
        fun path e hpath he => hQ e ⟨path, hpath, he⟩
      simp only [body, rounds_mapM]
      refine hitems.bind fun items => Adds.bind ?_ fun _ => .pure _
      exact .mapM items fun x _ => hround rfl x.1 x.2
    | button =>
      exact (adds_buttonAttributes (hP _ rfl)).bind fun _ => (hnodes rfl).bind fun _ => .pure _
    | textInput | checkbox => exact adds_field _ fun var hvar => hP _ ⟨var, _, hvar, rfl⟩
    | event e =>
      cases e with
      | onMount | onInterval => exact adds_lifecycle _ fun b hb => hP _ ⟨b, hb, rfl⟩
      | onClick | onChange => exact .pure _
    | _ => exact .pure _

end Body

end

/-- A handler that is made on the way. -/
def Made (v₀ : View) (root : Template.Node) (h : Handler) : Prop :=
  ∃ v n, Visits v₀ root v n ∧ Makes v n h

/-- An error that comes up on the way. -/
def Failed (v₀ : View) (root : Template.Node) (e : EvalError) : Prop :=
  ∃ v n, Visits v₀ root v n ∧ Fails v n e

section Tree

variable {v₀ : View} {root : Template.Node}

mutual

/-- What a node on the way adds comes up on the way. -/
theorem adds_node (r : Renderer) (inside : Bool) {v : View} : (n : Template.Node) →
    Visits v₀ root v n → Adds (Made v₀ root) (Failed v₀ root) (node r inside v n)
  | ⟨tag, attributes, children, span, bindings, island⟩, hn => by
    rw [node_eq]
    refine Adds.enclose (adds_body r _ (fun h hm => ⟨v, _, hn, hm⟩)
      (fun e he => ⟨v, _, hn, he⟩) ?_ ?_ ?_ ?_) _ _ _
    · exact fun hd => adds_nodes r _ children fun c hc => hn.child hd hc
    · exact fun hd item index => adds_nodes r _ children fun c hc => .round item index hn hd hc
    · intro hd
      refine adds_firstBranch r _ children (fun c hc helse e he => ⟨v, _, hn, ?_⟩) fun c hc g hg =>
        hn.branch hd hc hg
      unfold Fails
      rw [show Template.Node.dsl? ⟨tag, attributes, children, span, bindings, island⟩ = _ from
        of_decide_eq_true hd]
      exact ⟨c, hc, helse, he⟩
    · exact fun hd value => adds_firstWhere r _ _ children fun c hc hp g hg =>
        (hn.child (Template.Node.isDsl_of_ne hd (by decide)) hc).child (not_forEach_of_chosen hp) hg

theorem adds_nodes (r : Renderer) (inside : Bool) {v : View} : (ns : List Template.Node) →
    (∀ n ∈ ns, Visits v₀ root v n) → Adds (Made v₀ root) (Failed v₀ root) (nodes r inside v ns)
  | [], _ => .pure _
  | n :: ns, h => by
    unfold nodes
    refine (adds_node r inside n (h n List.mem_cons_self)).bind fun _ => ?_
    exact (adds_nodes r inside ns fun n hn => h n (List.mem_cons_of_mem _ hn)).bind fun _ => .pure _

theorem adds_firstBranch (r : Renderer) (inside : Bool) {v : View} : (ns : List Template.Node) →
    (∀ c ∈ ns, c.isDsl .elseBranch = false → ∀ e, v.holds c = .error e →
      Failed v₀ root e) →
    (∀ c ∈ ns, ∀ g ∈ c.children, Visits v₀ root v g) →
      Adds (Made v₀ root) (Failed v₀ root) (firstBranch r inside v ns)
  | [], _, _ => .pure _
  | ⟨tag, attributes, children, span, bindings, island⟩ :: rest, hc, h => by
    have hfirst := adds_nodes r inside children (h _ List.mem_cons_self)
    have hrest := adds_firstBranch r inside rest (fun c hm => hc c (List.mem_cons_of_mem _ hm))
      fun c hm => h c (List.mem_cons_of_mem _ hm)
    have hnext : ∀ taken : Bool, Adds (Made v₀ root) (Failed v₀ root)
        (if taken then nodes r inside v children else firstBranch r inside v rest) := by
      intro taken
      cases taken with
      | true => exact hfirst
      | false => exact hrest
    unfold firstBranch
    dsimp only
    split
    · exact Adds.bind (.pure true) hnext
    · rename_i helse
      exact (adds_condition (hc _ List.mem_cons_self (by simpa using helse))).bind hnext

theorem adds_firstWhere (r : Renderer) (inside : Bool) {v : View} (p : Template.Node → Bool) :
    (ns : List Template.Node) → (∀ c ∈ ns, p c = true → ∀ g ∈ c.children, Visits v₀ root v g) →
    Adds (Made v₀ root) (Failed v₀ root) (firstWhere r inside v p ns)
  | [], _ => .pure _
  | ⟨tag, attributes, children, span, bindings, island⟩ :: rest, h => by
    unfold firstWhere
    split
    · rename_i hp
      exact adds_nodes r inside children (h _ List.mem_cons_self hp)
    · exact adds_firstWhere r inside p rest fun c hm => h c (List.mem_cons_of_mem _ hm)

end

end Tree

/-- All that a rendering draws comes up on its way. -/
theorem Renderer.draw_only (r : Renderer) (inside : Bool) (scope : Scope) (root : Template.Node) :
    (r.draw inside scope root).2.Only (Made { limits := r.eval, scope } root)
      (Failed { limits := r.eval, scope } root) :=
  adds_node r inside root .root {}
    ⟨List.forall_mem_nil _, List.forall_mem_nil _, List.forall_mem_nil _⟩

end Page

end Archipelago
