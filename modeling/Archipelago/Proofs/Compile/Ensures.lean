import Archipelago.Proofs.Compile.Checked

/-!
# What a step of a compilation ensures

A compilation goes on behind errors, so that a step has been passed is known only at the end, where
there are no errors. Errors and declarations are never taken back. A step ensures a property of
what it gives if the property holds whenever the draft behind it is clean; steps in a row ensure
what each of them does, since a clean draft had a clean one before it.
-/

namespace Archipelago.Compile

/-- Each declaration stands under its own name. -/
def Draft.Named (d : Draft) : Prop := ∀ e ∈ d.declared, e.2.name = e.1

/-- The initial value is one of the type: the default of the type, or what a text says. A computed
variable has none. -/
def Started (d : VariableDecl) : Prop :=
  if d.type = .computed then d.initial = .null
  else d.initial = d.type.zero ∨ ∃ text, d.type.parseInitial text = some d.initial

/-- A declaration that can be carried out where these variables are known. A computed one is on no
cycle. -/
structure Declarable (r : Rules) (known : String → Prop) (d : VariableDecl) : Prop where
  started : Started d
  computed : d.type = .computed → d.name ∉ r.cyclic ∧
    ∃ src e, d.expression = some src ∧ Expr.parse r.eval src = .ok e ∧
      ∀ dep, e.ReadsVar dep → known dep

/-- Declarations are put behind others, one by one. What each reads is declared, or on a cycle. -/
inductive Declares (r : Rules) (ds : Dict VariableDecl) : Dict VariableDecl → Prop where
  | refl : Declares r ds ds
  | snoc {ds' : Dict VariableDecl} {d : VariableDecl} : Declares r ds ds' → d.name ∉ Dict.keys ds' →
      Declarable r (fun dep => dep ∈ Dict.keys ds' ∨ dep ∈ r.cyclic) d →
      Declares r ds (ds' ++ [(d.name, d)])

/-- Declarations that go on from others. -/
theorem Declares.trans {r : Rules} {ds ds' ds'' : Dict VariableDecl} (h : Declares r ds ds')
    (h' : Declares r ds' ds'') : Declares r ds ds'' := by
  induction h' with
  | refl => exact h
  | snoc _ hfresh hd ih => exact ih.snoc hfresh hd

/-- More elements than there may be do not go without an error. -/
def Draft.Limited (r : Rules) (d : Draft) : Prop :=
  r.limits.maxNodes < d.elements ∨ d.overflowed = true → d.errors ≠ []

/-- Errors are added behind those before, elements stay counted, and declarations stay. Without
errors each declaration is one that can stand where it does. -/
structure Grows (r : Rules) (d d' : Draft) : Prop where
  errors : d.errors <+: d'.errors
  elements : d.elements ≤ d'.elements
  limited : d.Limited r → d'.Limited r
  declared : ∀ name ∈ Dict.keys d.declared, name ∈ Dict.keys d'.declared
  named : d.Named → d'.Named
  declares : d'.errors = [] → Declares r d.declared d'.declared

namespace Grows

variable {r : Rules} {d d' d'' : Draft}

theorem refl (d : Draft) : Grows r d d :=
  ⟨List.prefix_refl _, Nat.le_refl _, id, fun _ h => h, id, fun _ => .refl⟩

theorem trans (h : Grows r d d') (h' : Grows r d' d'') : Grows r d d'' where
  errors := h.errors.trans h'.errors
  elements := Nat.le_trans h.elements h'.elements
  limited hl := h'.limited (h.limited hl)
  declared name hn := h'.declared name (h.declared name hn)
  named hn := h'.named (h.named hn)
  declares hclean := (h.declares (List.prefix_nil.1 (hclean ▸ h'.errors))).trans
    (h'.declares hclean)

/-- A step that leaves the declarations alone. -/
theorem of_declared (h : d.errors <+: d'.errors) (he : d.elements ≤ d'.elements)
    (hl : d.Limited r → d'.Limited r) (hd : d'.declared = d.declared) : Grows r d d' where
  errors := h
  elements := he
  limited := hl
  declared name hn := hd ▸ hn
  named hn := by
    unfold Draft.Named at *
    rwa [hd]
  declares _ := hd ▸ .refl

/-- A step that does no more than to add an error. -/
theorem report (e : CompileError) : Grows r d { d with errors := d.errors ++ [e] } :=
  of_declared (List.prefix_append _ _) (Nat.le_refl _) (fun _ _ => List.concat_ne_nil _ _) rfl

end Grows

/-- No errors so far, and no declarations but of known names. -/
structure Clean (known : String → Prop) (d : Draft) : Prop where
  errors : d.errors = []
  declared : ∀ name ∈ Dict.keys d.declared, known name

/-- What is clean in the end has been clean before, since errors only come. -/
theorem Clean.of_grows {r : Rules} {known : String → Prop} {d d' : Draft} (h : Clean known d')
    (hg : Grows r d d') : Clean known d where
  errors := List.prefix_nil.1 (h.errors ▸ hg.errors)
  declared name hn := h.declared name (hg.declared name hn)

section

variable {r : Rules} {known : String → Prop} {α β : Type}

/-- What holds of the result of a step from one draft if the draft behind it is clean. -/
def EnsuresFrom (r : Rules) (known : String → Prop) (d : Draft) (x : Build α) (Q : α → Prop) :
    Prop :=
  Grows r d (x r d).2 ∧ (Clean known (x r d).2 → Q (x r d).1)

/-- The same from any draft. -/
def Ensures (r : Rules) (known : String → Prop) (x : Build α) (Q : α → Prop) : Prop :=
  ∀ d, EnsuresFrom r known d x Q

/-- The same of a step that may come to nothing. -/
def EnsuresSome (r : Rules) (known : String → Prop) (x : Attempt α) (Q : α → Prop) : Prop :=
  Ensures r known x.run fun o => ∀ a, o = some a → Q a

namespace Ensures

variable {x : Build α} {f : α → Build β} {Q : α → Prop} {R : β → Prop}

theorem pure {a : α} (h : Q a) : Ensures r known (Pure.pure a) Q := fun d => ⟨.refl d, fun _ => h⟩

theorem bind (hx : Ensures r known x Q) (hf : ∀ a, Ensures r known (f a) fun b => Q a → R b) :
    Ensures r known (x >>= f) R := by
  intro d
  obtain ⟨hg, hQ⟩ := hx d
  obtain ⟨hg', hR⟩ := hf (x r d).1 (x r d).2
  exact ⟨hg.trans hg', fun hclean => hR hclean (hQ (hclean.of_grows hg'))⟩

theorem mono {Q' : α → Prop} (hx : Ensures r known x Q) (h : ∀ a, Q a → Q' a) :
    Ensures r known x Q' := fun d => ⟨(hx d).1, fun hclean => h _ ((hx d).2 hclean)⟩

/-- A step whose result does not count for what is ensured. -/
theorem andThen (hx : Ensures r known x Q) (hf : ∀ a, Ensures r known (f a) R) :
    Ensures r known (x >>= f) R := hx.bind fun a => (hf a).mono fun _ hR _ => hR

theorem discard {P : Prop} (hx : Ensures r known x fun _ => P) :
    Ensures r known (discard x) fun _ => P := hx.bind fun _ => pure id

end Ensures

/-- An error is never part of a clean draft. -/
theorem ensures_report (kind : CompileErrorKind) (span : Span) (message : String)
    (Q : Unit → Prop) :
    Ensures r known (report kind span message) Q := by
  intro d
  refine ⟨.report _, fun hclean => ?_⟩
  exact absurd hclean.errors (List.append_ne_nil_of_right_ne_nil _ (List.cons_ne_nil _ _))

theorem ensures_warn (span : Span) (message : String) :
    Ensures r known (warn span message) fun _ => True :=
  fun _ => ⟨.of_declared (List.prefix_refl _) (Nat.le_refl _) id rfl, fun _ => True.intro⟩

theorem ensures_read : Ensures r known (MonadReader.read : Build Rules) (· = r) :=
  fun d => ⟨.refl d, fun _ => rfl⟩

/-- What is known of the end holds of the draft at hand. -/
theorem ensures_get : Ensures r known (MonadState.get : Build Draft) (Clean known) :=
  fun d => ⟨.refl d, id⟩

namespace EnsuresSome

variable {x : Attempt α} {f : α → Attempt β} {Q : α → Prop} {R : β → Prop}

theorem pure {a : α} (h : Q a) : EnsuresSome r known (Pure.pure a) Q :=
  Ensures.pure fun _ hb => Option.some.inj hb ▸ h

theorem failure : EnsuresSome r known (Alternative.failure : Attempt α) Q :=
  Ensures.pure fun _ hb => by cases hb

theorem lift {y : Build α} (h : Ensures r known y Q) :
    EnsuresSome r known (liftM y : Attempt α) Q :=
  h.bind fun _ => Ensures.pure fun hQ _ ha => Option.some.inj ha ▸ hQ

theorem bind (hx : EnsuresSome r known x Q)
    (hf : ∀ a, EnsuresSome r known (f a) fun b => Q a → R b) : EnsuresSome r known (x >>= f) R := by
  unfold EnsuresSome
  rw [OptionT.run_bind]
  refine Ensures.bind hx fun o => ?_
  cases o with
  | none => exact Ensures.pure fun _ _ hb => by cases hb
  | some a => exact (hf a).mono fun o ho hQ b hb => ho b hb (hQ a rfl)

theorem mono {Q' : α → Prop} (hx : EnsuresSome r known x Q) (h : ∀ a, Q a → Q' a) :
    EnsuresSome r known x Q' := Ensures.mono hx fun _ ho a ha => h a (ho a ha)

theorem andThen (hx : EnsuresSome r known x Q) (hf : ∀ a, EnsuresSome r known (f a) R) :
    EnsuresSome r known (x >>= f) R := hx.bind fun a => (hf a).mono fun _ hR _ => hR

/-- A step that may be given up before it starts. -/
theorem givenUp {c : Bool} {k : PUnit → Attempt β} (h : ∀ u, EnsuresSome r known (k u) R) :
    EnsuresSome r known (if c = true then Alternative.failure >>= k else k ⟨⟩) R := by
  split
  · exact (EnsuresSome.failure (Q := fun _ => True)).andThen h
  · exact h _

end EnsuresSome

/-- What holds of all that a step can give, be the draft clean or not. -/
def Gives (r : Rules) (x : Attempt α) (Q : α → Prop) : Prop := ∀ d a, (x.run r d).1 = some a → Q a

/-- A step that gives nothing is not followed by another one. -/
theorem run_bind (x : Attempt α) (f : α → Attempt β) (d : Draft) :
    (x >>= f).run r d = match (x.run r d).1 with
      | some a => (f a).run r (x.run r d).2
      | none => (none, (x.run r d).2) := by
  rw [OptionT.run_bind]
  show Option.elim (x.run r d).1 (pure none) (fun a => (f a).run) r (x.run r d).2 = _
  cases (x.run r d).1 with
  | none => rfl
  | some a => rfl

namespace EnsuresFrom

variable {d : Draft} {R : β → Prop}

/-- What comes behind a step goes on from the draft that the step leaves. -/
theorem goOn {x : Build α} {f : α → Attempt β} (hx : Ensures r known x fun _ => True)
    (hf : EnsuresFrom r known (x r d).2 (f (x r d).1).run fun o => ∀ b, o = some b → R b) :
    EnsuresFrom r known d (liftM x >>= f : Attempt β).run fun o => ∀ b, o = some b → R b := by
  unfold EnsuresFrom
  rw [run_bind]
  exact ⟨(hx d).1.trans hf.1, hf.2⟩

theorem get {f : Draft → Attempt β} {Q : Option β → Prop} (hf : EnsuresFrom r known d (f d).run Q) :
    EnsuresFrom r known d (MonadState.get >>= f : Attempt β).run Q := by
  unfold EnsuresFrom
  rw [run_bind]
  exact hf

end EnsuresFrom

/-- The same of a step that always comes to something. -/
def Yields (r : Rules) (x : Build α) (Q : α → Prop) : Prop := ∀ d, Q (x r d).1

namespace Yields

variable {x : Build α} {f : α → Build β} {Q : α → Prop} {R : β → Prop}

theorem pure {a : α} (h : Q a) : Yields r (Pure.pure a) Q := fun _ => h

theorem seq (hx : Yields r x Q) (hf : ∀ a, Q a → Yields r (f a) R) : Yields r (x >>= f) R :=
  fun d => hf _ (hx d) _

theorem bind (hf : ∀ a, Yields r (f a) R) : Yields r (x >>= f) R := fun _ => hf _ _

theorem mono {Q' : α → Prop} (hx : Yields r x Q) (h : ∀ a, Q a → Q' a) : Yields r x Q' :=
  fun d => h _ (hx d)

end Yields

namespace Gives

variable {x : Attempt α} {f : α → Attempt β} {Q : α → Prop} {R : β → Prop}

theorem pure {a : α} (h : Q a) : Gives r (Pure.pure a) Q := fun _ _ hb => Option.some.inj hb ▸ h

theorem run (h : Gives r x Q) : Yields r x.run fun o => ∀ a, o = some a → Q a := h

theorem failure : Gives r (Alternative.failure : Attempt α) Q := fun _ _ hb => by cases hb

theorem lift {y : Build α} (h : Yields r y Q) : Gives r (liftM y) Q :=
  fun d _ hb => Option.some.inj hb ▸ h d

/-- What the first of two steps gives is there for the second one. -/
theorem seq (hx : Gives r x Q) (hf : ∀ a, Q a → Gives r (f a) R) : Gives r (x >>= f) R := by
  intro d b hb
  rw [run_bind] at hb
  split at hb
  · rename_i a ha
    exact hf a (hx d a ha) _ b hb
  · contradiction

theorem bind (hf : ∀ a, Gives r (f a) R) : Gives r (x >>= f) R :=
  seq (Q := fun _ => True) (fun _ _ _ => True.intro) fun a _ => hf a

theorem givenUp {c : Bool} {k : PUnit → Attempt β} (h : ∀ u, Gives r (k u) R) :
    Gives r (if c = true then Alternative.failure >>= k else k ⟨⟩) R := by
  split
  · exact .bind h
  · exact h _

theorem reject (kind : CompileErrorKind) (span : Span) (message : String) :
    Gives r (reject kind span message : Attempt α) Q := .bind fun _ => .failure

end Gives

/-! ## Steps that declare nothing -/

/-- The declarations stay as they are. -/
def Steady (r : Rules) (x : Build α) : Prop := ∀ d, (x r d).2.declared = d.declared

namespace Steady

variable {x : Build α} {f : α → Build β}

theorem pure (a : α) : Steady r (Pure.pure a) := fun _ => rfl

theorem bind (hx : Steady r x) (hf : ∀ a, Steady r (f a)) : Steady r (x >>= f) :=
  fun d => (hf (x r d).1 (x r d).2).trans (hx d)

theorem get : Steady r MonadState.get := fun _ => rfl

theorem read : Steady r (MonadReader.read : Build Rules) := fun _ => rfl

theorem report (kind : CompileErrorKind) (span : Span) (message : String) :
    Steady r (report kind span message) := fun _ => rfl

theorem warn (span : Span) (message : String) : Steady r (warn span message) := fun _ => rfl

/-- A step that may come to nothing, and what is done with what it comes to. -/
theorem attempt {x : Attempt α} {f : α → Attempt β} (hx : Steady r x.run)
    (hf : ∀ a, Steady r (f a).run) : Steady r (x >>= f).run := by
  intro d
  rw [run_bind]
  split
  · exact (hf _ _).trans (hx d)
  · exact hx d

theorem lift {y : Build α} (h : Steady r y) : Steady r (liftM y : Attempt α).run :=
  h.bind fun _ => pure _

theorem required (tag : Markup.OpenTag) (attr : String) : Steady r (required tag attr).run := by
  unfold Compile.required
  split
  · exact pure _
  · exact (report _ _ _).bind fun _ => pure _

end Steady

theorem ensures_reject (kind : CompileErrorKind) (span : Span) (message : String) (Q : α → Prop) :
    EnsuresSome r known (reject kind span message : Attempt α) Q :=
  (EnsuresSome.lift (ensures_report kind span message fun _ => False)).bind fun _ =>
    EnsuresSome.failure

theorem ensures_required (tag : Markup.OpenTag) (attr : String) :
    EnsuresSome r known (required tag attr) fun value => tag.attr? attr = some value := by
  unfold required
  split
  · rename_i value hvalue
    exact .pure hvalue
  · exact ensures_reject _ _ _ _

/-- An element is counted in any case. It is let through or there is an error, be it the one that
has been reported for an element before. -/
theorem countElement_cases (r : Rules) (span : Span) (depth : Nat) (d : Draft) :
    let counted : Draft := { d with elements := d.elements + 1 }
    let d' := (countElement span depth r d).2
    (∃ e, d' = { counted with errors := d.errors ++ [e] }) ∨
    (∃ e, d' = { counted with errors := d.errors ++ [e], overflowed := true }) ∨
    (d.overflowed = true ∧ d' = counted) ∨ (d.elements + 1 ≤ r.limits.maxNodes ∧ d' = counted) := by
  intro counted d'
  have hrun : d' = ((if r.limits.maxDepth < depth then _
      else if r.limits.maxNodes < counted.elements then _ else _ : Build Bool) r counted).2 := rfl
  rw [hrun]
  split
  · exact .inl ⟨_, rfl⟩
  · split
    · dsimp only
      split
      · exact .inr (.inl ⟨_, rfl⟩)
      · rename_i hover
        exact .inr (.inr (.inl ⟨by simpa using hover, rfl⟩))
    · rename_i hfull
      exact .inr (.inr (.inr ⟨Nat.le_of_not_lt hfull, rfl⟩))

/-- An element that is counted makes the count one larger in any case, so it is the errors that keep
it to the limit. -/
theorem ensures_countElement (span : Span) (depth : Nat) :
    Ensures r known (countElement span depth) fun _ => True := by
  refine fun d => ⟨?_, fun _ => True.intro⟩
  have hgrows {d' : Draft} (herrors : d.errors <+: d'.errors)
      (hcount : d'.elements = d.elements + 1) (hl : d.Limited r → d'.Limited r)
      (hd : d'.declared = d.declared) : Grows r d d' :=
    .of_declared herrors (hcount ▸ Nat.le_succ _) hl hd
  rcases countElement_cases r span depth d with ⟨e, h⟩ | ⟨e, h⟩ | ⟨hover, h⟩ | ⟨hle, h⟩
  · rw [h]
    exact hgrows (List.prefix_append _ _) rfl (fun _ _ => List.concat_ne_nil _ _) rfl
  · rw [h]
    exact hgrows (List.prefix_append _ _) rfl (fun _ _ => List.concat_ne_nil _ _) rfl
  · rw [h]
    exact hgrows (List.prefix_refl _) rfl (fun hl _ => hl (.inr hover)) rfl
  · rw [h]
    refine hgrows (List.prefix_refl _) rfl (fun hl hover => hl (.inr ?_)) rfl
    exact hover.resolve_left (Nat.not_lt.2 hle)

end

end Archipelago.Compile
