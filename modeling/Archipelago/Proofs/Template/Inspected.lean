import Archipelago.Proofs.Compile.Extract
import Archipelago.Proofs.Template.Reactive

/-!
# What is looked at

The reads of a node are found from the texts of some of its attributes, which are read within the
default limits, whatever limits the template is compiled and rendered within. So a text counts with
all that it depends on, or it is beyond the default limits and counts for nothing.
-/

namespace Archipelago.Template

/-- A text that variables are read in. -/
inductive Reading where
  | path (text : String)
  | expr (src : String)

namespace Reading

/-- A reading of a text as a path or as an expression. -/
def parse (limits : EvalLimits) : Reading → Except EvalError Expr
  | path text => Expr.parsePath limits text
  | expr src => Expr.parse limits src

/-- The variables that the text counts for. -/
def reads : Reading → List String
  | path text => pathReads text
  | expr src => exprReads src

/-- Is it a limit that keeps the text from being read? -/
def IsBeyond (limits : EvalLimits) (x : Reading) : Prop :=
  ∃ limit, x.parse limits = .error (.limitExceeded limit)

@[simp] theorem parse_path (limits : EvalLimits) (text : String) :
    (path text).parse limits = Expr.parsePath limits text := rfl

@[simp] theorem parse_expr (limits : EvalLimits) (src : String) :
    (expr src).parse limits = Expr.parse limits src := rfl

@[simp] theorem reads_path (text : String) : (path text).reads = pathReads text := rfl

@[simp] theorem reads_expr (src : String) : (expr src).reads = exprReads src := rfl

theorem reads_of_parse {x : Reading} {e : Expr} (h : x.parse {} = .ok e) :
    x.reads = e.dependencies := by
  cases x with
  | path text =>
    rw [parse_path] at h
    rw [reads_path, pathReads_of_parsePath (.refl _) h]
  | expr src =>
    rw [parse_expr] at h
    rw [reads_expr, exprReads_of_parse (.refl _) h]

/-- What can be read is read as the same within other limits, or it is beyond them. -/
theorem parse_or_beyond {l : EvalLimits} {x : Reading} {e : Expr} (h : x.parse l = .ok e)
    (m : EvalLimits) : x.parse m = .ok e ∨ x.IsBeyond m := by
  unfold IsBeyond
  cases x with
  | path text =>
    rw [parse_path] at h ⊢
    exact Expr.cutShort_of_parsePath h m
  | expr src =>
    rw [parse_expr] at h ⊢
    exact Expr.cutShort_of_parse h m

end Reading

namespace Node

/-- The texts that a branch of an `If` chain is looked at for. -/
inductive BranchInspects (n : Node) : Reading → Prop where
  | condition {src : String} : n.attr? "condition" = some src → BranchInspects n (.expr src)
  | var {text : String} : n.attr? "var" = some text → BranchInspects n (.path text)
  | not {text : String} : n.attr? "not" = some text → BranchInspects n (.path text)
  | and {paths text : String} : n.attr? "and" = some paths → text ∈ splitPaths paths →
      BranchInspects n (.path text)
  | or {paths text : String} : n.attr? "or" = some paths → text ∈ splitPaths paths →
      BranchInspects n (.path text)

/-- The texts that a node is looked at for. -/
inductive Inspects (n : Node) : Reading → Prop where
  | var {t : DslTag} {text : String} : n.dsl? = some t →
      t ∈ [.showVar, .forEach, .textInput, .checkbox, .switch] → n.attr? "var" = some text →
      Inspects n (.path text)
  | value {src : String} : n.dsl? = some .switch → n.attr? "var" = none →
      n.attr? "value" = some src → Inspects n (.expr src)
  | branch {b : Node} {x : Reading} : n.dsl? = some .ifChain → b ∈ n.children →
      b.BranchInspects x → Inspects n x

theorem mem_attrReads {n : Node} {attr name : String} {f : String → List String} :
    name ∈ ((n.attr? attr).map f).getD [] ↔ ∃ text, n.attr? attr = some text ∧ name ∈ f text := by
  cases n.attr? attr with
  | none => simp
  | some text => simp

theorem mem_conditionReads {n : Node} {name : String} :
    name ∈ n.conditionReads ↔ ∃ x, n.BranchInspects x ∧ name ∈ x.reads := by
  unfold conditionReads
  simp only [List.mem_append, or_assoc, mem_attrReads, List.mem_flatMap]
  constructor
  · rintro (⟨src, hattr, h⟩ | ⟨text, hattr, h⟩ | ⟨text, hattr, h⟩ | ⟨paths, hattr, text, hmem, h⟩ |
      ⟨paths, hattr, text, hmem, h⟩)
    · exact ⟨_, .condition hattr, h⟩
    · exact ⟨_, .var hattr, h⟩
    · exact ⟨_, .not hattr, h⟩
    · exact ⟨_, .and hattr hmem, h⟩
    · exact ⟨_, .or hattr hmem, h⟩
  · rintro ⟨x, hx, h⟩
    cases hx with
    | condition hattr => exact .inl ⟨_, hattr, h⟩
    | var hattr => exact .inr (.inl ⟨_, hattr, h⟩)
    | not hattr => exact .inr (.inr (.inl ⟨_, hattr, h⟩))
    | and hattr hmem => exact .inr (.inr (.inr (.inl ⟨_, hattr, _, hmem, h⟩)))
    | or hattr hmem => exact .inr (.inr (.inr (.inr ⟨_, hattr, _, hmem, h⟩)))

/-- A node reads what the texts count for that it is looked at for. -/
theorem mem_reads_iff {n : Node} {name : String} :
    name ∈ n.reads ↔ ∃ x, n.Inspects x ∧ name ∈ x.reads := by
  constructor
  · intro h
    unfold reads at h
    split at h
    case h_1 htag | h_2 htag | h_3 htag | h_4 htag =>
      obtain ⟨text, hattr, h⟩ := mem_attrReads.1 h
      exact ⟨_, .var htag (by decide) hattr, h⟩
    case h_5 htag =>
      split at h
      · rename_i hattr
        exact ⟨_, .var htag (by decide) hattr, h⟩
      · rename_i hvar hattr
        exact ⟨_, .value htag hvar hattr, h⟩
      · cases h
    case h_6 htag =>
      obtain ⟨b, hb, h⟩ := List.mem_flatMap.1 h
      obtain ⟨x, hx, h⟩ := mem_conditionReads.1 h
      exact ⟨x, .branch htag hb hx, h⟩
    case h_7 => cases h
  · rintro ⟨x, hx, h⟩
    unfold reads
    cases hx with
    | var htag hmem hattr =>
      rw [htag]
      simp only [List.mem_cons, List.not_mem_nil, or_false] at hmem
      rcases hmem with rfl | rfl | rfl | rfl | rfl
      · exact mem_attrReads.2 ⟨_, hattr, h⟩
      · exact mem_attrReads.2 ⟨_, hattr, h⟩
      · exact mem_attrReads.2 ⟨_, hattr, h⟩
      · exact mem_attrReads.2 ⟨_, hattr, h⟩
      · rw [hattr]
        exact h
    | value htag hvar hattr =>
      rw [htag, hvar, hattr]
      exact h
    | branch htag hmem hb =>
      rw [htag]
      exact List.mem_flatMap.2 ⟨_, hmem, mem_conditionReads.2 ⟨x, hb, h⟩⟩

/-- A text that can be read counts with all its variables, unless the default limits hide it. -/
theorem subset_reads {n : Node} {x : Reading} (h : n.Inspects x) {limits : EvalLimits} {e : Expr}
    (he : x.parse limits = .ok e) : e.dependencies ⊆ n.reads ∨ x.IsBeyond {} := by
  refine (Reading.parse_or_beyond he {}).imp_left fun he dep hdep => ?_
  rw [← Reading.reads_of_parse he] at hdep
  exact mem_reads_iff.2 ⟨x, h, hdep⟩

end Node

/-- What is looked at in a compiled template counts, and the computed variables that read what can
change are among what can change, but for texts that the default limits are too narrow for. -/
theorem seen_of_compile {c : Config} {src : String} {t : Template}
    (h : (compile c src).template? = some t) :
    (∀ n ∈ t.root.walk, ∀ x, n.Inspects x → ∀ e, x.parse c.eval = .ok e →
      e.dependencies ⊆ n.reads ∨ x.IsBeyond {}) ∧
    ∀ root, ∀ d ∈ t.decls, ∀ dep ∈ d.reads c.eval, dep ∈ reactive root t.decls →
      d.name ∈ reactive root t.decls ∨
        ∃ src, d.expression = some src ∧ (Reading.expr src).IsBeyond {} := by
  refine ⟨fun n _ x hx e he => Node.subset_reads hx he, fun root d hd dep hdep hmem => ?_⟩
  obtain ⟨raw, nodes, declared, -, -, -, hdeclares, hdecls, -⟩ := Compile.exists_tree h
  rw [hdecls] at hd hmem ⊢
  obtain ⟨htype, src, e, hsrc, he, hread⟩ := VariableDecl.mem_reads_iff.1 hdep
  rcases Reading.parse_or_beyond (x := .expr src) he {} with he | hbeyond
  · have hseen := VariableDecl.mem_reads_iff.2 ⟨htype, src, e, hsrc, he, hread⟩
    exact .inl (mem_reactive hdeclares root hd hdep hseen hmem)
  · exact .inr ⟨src, hsrc, hbeyond⟩

/-- A field, and a computed variable and a condition that read it behind this many negations. -/
def negatedMarkup (depth : Nat) : String :=
  let negated := String.ofList (List.replicate depth '!') ++ "$vars.on"
  "<Var name=\"on\"/><Var name=\"lit\" type=\"computed\" expression=\"" ++ negated
    ++ "\"/><TextInput var=\"on\"/><If condition=\"" ++ negated ++ "\">lit</If>"

/-- A template may ask for more room to nest than there is by default. -/
def roomy : Config := { eval := { maxNesting := 64 } }

/-- With one negation both are seen, and the computed variable is reactive. -/
theorem seen_negated : ∃ t, (compile roomy (negatedMarkup 1)).template? = some t ∧
    (∃ n ∈ t.root.walk, n.dsl? = some .ifChain ∧ "on" ∈ n.reads) ∧
    "lit" ∈ reactive t.root t.decls := by
  have he : ((Compile.evaluated roomy (negatedMarkup 1)).bind fun k => k.template?.bind fun t =>
      t.root.walk.findSome? fun n => n.children.findSome? fun b =>
        (b.attr? "condition").bind fun s => (Expr.parse {} s).toOption.bind fun e =>
          t.decls.findSome? fun d =>
          d.expression.map fun src => decide (n.dsl? = some .ifChain ∧ "on" ∈ e.dependencies ∧
            s = src ∧ d.name = "lit" ∧ d.type = .computed ∧ "on" ∈ writtenVars t.root)) =
      some true := by
    decide +kernel
  obtain ⟨k, hk, he⟩ := Option.bind_eq_some_iff.1 he
  obtain ⟨t, ht, he⟩ := Option.bind_eq_some_iff.1 he
  obtain ⟨n, hn, he⟩ := List.exists_of_findSome?_eq_some he
  obtain ⟨b, hb, he⟩ := List.exists_of_findSome?_eq_some he
  obtain ⟨s, hs, he⟩ := Option.bind_eq_some_iff.1 he
  obtain ⟨e, hparse, he⟩ := Option.bind_eq_some_iff.1 he
  obtain ⟨d, hd, he⟩ := List.exists_of_findSome?_eq_some he
  obtain ⟨src, hsrc, he⟩ := Option.map_eq_some_iff.1 he
  obtain ⟨htag, hdep, rfl, hname, htype, hwritten⟩ := of_decide_eq_true he
  have hparse := toOption_eq_some.1 hparse
  have hseen : ∀ limit, Expr.parse {} s ≠ .error (.limitExceeded limit) := fun limit hlimit => by
    rw [hparse] at hlimit
    cases hlimit
  have hroomy := Expr.parse_mono (l := {}) (m := roomy.eval) ⟨Nat.le_refl _, by decide⟩ hparse
  rw [← Compile.compile_of_evaluated hk] at ht
  obtain ⟨hreads, hreaders⟩ := seen_of_compile ht
  refine ⟨t, ht, ⟨n, hn, htag, ?_⟩, ?_⟩
  · rcases hreads n hn (.expr s) (.branch htag hb (.condition hs)) e hroomy with
      hall | ⟨limit, hlimit⟩
    · exact hall hdep
    · exact absurd hlimit (hseen limit)
  · have hread := VariableDecl.mem_reads_iff.2 ⟨htype, s, e, hsrc, hroomy, hdep⟩
    have hreactive := written_subset_reactive t.root t.decls hwritten
    rcases hreaders t.root d hd "on" hread hreactive with hmem | ⟨src, hsrc', limit, hlimit⟩
    · exact hname ▸ hmem
    · obtain rfl := Option.some.inj (hsrc.symm.trans hsrc')
      exact absurd hlimit (hseen limit)

/-- What the compiler reads can be too deep for the look at it: nothing is found to change. -/
theorem not_seen_negated : ∃ t, (compile roomy (negatedMarkup 33)).template? = some t ∧
    (∃ n ∈ t.root.walk, ∃ x, n.Inspects x ∧ ∃ e, x.parse roomy.eval = .ok e ∧
      ¬e.dependencies ⊆ n.reads) ∧
    ∃ d ∈ t.decls, ∃ dep ∈ d.reads roomy.eval, dep ∈ reactive t.root t.decls ∧
      d.name ∉ reactive t.root t.decls := by
  have he : ((Compile.evaluated roomy (negatedMarkup 33)).bind fun k => k.template?.bind fun t =>
      t.root.walk.findSome? fun n => n.children.findSome? fun b =>
        (b.attr? "condition").bind fun s => (Expr.parse roomy.eval s).toOption.bind fun e =>
          t.decls.findSome? fun d =>
          d.expression.map fun src => decide (n.dsl? = some .ifChain ∧ "on" ∈ e.dependencies ∧
            n.reads = [] ∧ s = src ∧ d.name = "lit" ∧ d.type = .computed ∧
            reactive t.root t.decls = ["on"])) = some true := by
    decide +kernel
  obtain ⟨k, hk, he⟩ := Option.bind_eq_some_iff.1 he
  obtain ⟨t, ht, he⟩ := Option.bind_eq_some_iff.1 he
  obtain ⟨n, hn, he⟩ := List.exists_of_findSome?_eq_some he
  obtain ⟨b, hb, he⟩ := List.exists_of_findSome?_eq_some he
  obtain ⟨s, hs, he⟩ := Option.bind_eq_some_iff.1 he
  obtain ⟨e, hparse, he⟩ := Option.bind_eq_some_iff.1 he
  obtain ⟨d, hd, he⟩ := List.exists_of_findSome?_eq_some he
  obtain ⟨src, hsrc, he⟩ := Option.map_eq_some_iff.1 he
  obtain ⟨htag, hdep, hreads, rfl, hname, htype, hreactive⟩ := of_decide_eq_true he
  have hparse := toOption_eq_some.1 hparse
  rw [← Compile.compile_of_evaluated hk] at ht
  refine ⟨t, ht, ⟨n, hn, .expr s, .branch htag hb (.condition hs), e, hparse, fun hall => ?_⟩, d,
    hd, "on", VariableDecl.mem_reads_iff.2 ⟨htype, s, e, hsrc, hparse, hdep⟩, ?_, ?_⟩
  · exact List.not_mem_nil (hreads ▸ hall hdep)
  · rw [hreactive]
    exact List.mem_singleton_self _
  · rw [hreactive, hname]
    decide

end Archipelago.Template
