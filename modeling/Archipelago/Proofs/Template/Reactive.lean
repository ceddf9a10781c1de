import Archipelago.Proofs.Action.Sequence
import Archipelago.Proofs.Action.Targets
import Archipelago.Proofs.Compile.Ensures
import Archipelago.Proofs.Page.Reads
import Archipelago.Proofs.Store.Calls
import Mathlib.Order.Bounds.Basic

/-!
# What can change is closed

The variables that can change are those that are written, kept or asked for, and each computed one
that reads one of them. They are found in one pass over the declarations. That is enough, since no
declaration that a compilation keeps reads a computed variable that is declared behind it.

Of any declarations in such an order the pass finds the least closed set, however long the chains of
computed variables are; in another order a reader could be passed before what it reads is found.
-/

namespace Archipelago

open Compile (Declarable Declares Rules)

/-! ## Targets of steps -/

namespace Action

theorem mem_targets_iff (var : String) :
    (∀ a, var ∈ targets a ↔ ∃ step ∈ flat a, step.target? = some var) ∧
      ∀ as, var ∈ targetsAll as ↔ ∃ step ∈ flatAll as, step.target? = some var := by
  refine flat.mutual_induct _ _ ?sequence ?single ?nil ?cons
  case sequence =>
    intro steps ih
    rw [targets, flat]
    exact ih
  case single =>
    intro a hsequence
    cases a with
    | sequence steps => exact (hsequence steps rfl).elim
    | _ => simp [targets, flat, target?, eq_comm]
  case nil => simp [targetsAll, flatAll]
  case cons =>
    intro a as ha has
    simp only [targetsAll, flatAll, List.mem_append, ha, has, or_and_right, exists_or]

/-- Whatever the nesting, the targets are those of the steps that do something. -/
theorem mem_targetsAll_iff {as : List Action} {var : String} :
    var ∈ targetsAll as ↔ ∃ step ∈ leaves as, step.target? = some var := by
  have hleaf : ∀ step : Action, step.target? = some var → step.isLeaf = true := by
    intro step hstep
    cases step with
    | sequence steps => cases hstep
    | delay ms => cases hstep
    | _ => rfl
  rw [(mem_targets_iff var).2 as]
  refine exists_congr fun step => ?_
  rw [leaves, List.mem_filter]
  exact ⟨fun h => ⟨⟨h.1, hleaf step h.2⟩, h.2⟩, fun h => ⟨h.1.1, h.2⟩⟩

end Action

namespace VariableDecl

theorem mem_reads_iff {limits : EvalLimits} {d : VariableDecl} {dep : String} :
    dep ∈ d.reads limits ↔ d.type = .computed ∧
      ∃ src e, d.expression = some src ∧ Expr.parse limits src = .ok e ∧ dep ∈ e.dependencies := by
  unfold reads
  constructor
  · intro h
    split at h
    · rename_i src htype hsrc
      split at h
      · rename_i e he
        exact ⟨htype, src, e, hsrc, he, h⟩
      · cases h
    · cases h
  · rintro ⟨htype, src, e, hsrc, he, h⟩
    rw [htype, hsrc]
    dsimp only
    rwa [he]

theorem reads_mono {l m : EvalLimits} (h : l.Le m) {d : VariableDecl} : d.reads l ⊆ d.reads m := by
  intro dep hdep
  obtain ⟨htype, src, e, hsrc, he, hdep⟩ := mem_reads_iff.1 hdep
  exact mem_reads_iff.2 ⟨htype, src, e, hsrc, Expr.parse_mono h he, hdep⟩

/-! ## Declarations in order -/

/-- The computed variable reads the name. Limits decide whether its expression can be read, never
what it reads. -/
def Reads (d : VariableDecl) (dep : String) : Prop := ∃ limits, dep ∈ d.reads limits

/-- The expression of a computed variable can be read within the default limits. -/
def Readable (d : VariableDecl) : Prop :=
  d.type = .computed → ∀ src, d.expression = some src → ∃ e, Expr.parse {} src = .ok e

theorem Readable.mem_reads {d : VariableDecl} (h : d.Readable) {dep : String} (hdep : d.Reads dep) :
    dep ∈ d.reads {} := by
  obtain ⟨limits, hdep⟩ := hdep
  obtain ⟨htype, src, e, hsrc, he, hdep⟩ := mem_reads_iff.1 hdep
  obtain ⟨e', he'⟩ := h htype src hsrc
  have hsame := (Expr.parse_mono (Expr.le_wider_left limits {}) he).symm.trans
    (Expr.parse_mono (Expr.le_wider_right limits {}) he')
  exact mem_reads_iff.2 ⟨htype, src, e', hsrc, he', Except.ok.inj hsame ▸ hdep⟩

/-- Each computed variable stands behind all the computed ones that it reads: it reads neither
itself nor one that is declared behind it. -/
structure Layered (ds : List VariableDecl) : Prop where
  self : ∀ d ∈ ds, d.type = .computed → ¬d.Reads d.name
  behind : ds.Pairwise fun d d' => d'.type = .computed → ¬d.Reads d'.name

theorem Layered.not_reads {before after : List VariableDecl} {d d' : VariableDecl}
    (h : Layered (before ++ d :: after)) (hd' : d' ∈ d :: after) (ht : d'.type = .computed) :
    ¬d.Reads d'.name := by
  rcases List.mem_cons.1 hd' with rfl | hd'
  · exact h.self _ (List.mem_append_right _ List.mem_cons_self) ht
  · obtain ⟨-, hbehind, -⟩ := List.pairwise_append.1 h.behind
    exact (List.pairwise_cons.1 hbehind).1 d' hd' ht

end VariableDecl

namespace Template

/-- The names of those that read one of the names are among them. -/
def ClosedUnder (limits : EvalLimits) (ds : List VariableDecl) (names : List String) : Prop :=
  ∀ d ∈ ds, ∀ dep ∈ d.reads limits, dep ∈ names → d.name ∈ names

/-- Goes on to a declaration: it counts if it is computed from what counts already. -/
def addReader (names : List String) (d : VariableDecl) : List String :=
  if computedReads names d then addNew names d.name else names

theorem mem_addReader {names : List String} {d : VariableDecl} {name : String} :
    name ∈ addReader names d ↔ name ∈ names ∨ computedReads names d = true ∧ name = d.name := by
  unfold addReader
  split
  · rename_i h
    rw [mem_addNew, h]
    simp only [true_and]
  · rename_i h
    exact (or_iff_left fun hd => h hd.1).symm

theorem type_of_computedReads {names : List String} {d : VariableDecl}
    (h : computedReads names d = true) : d.type = .computed :=
  of_decide_eq_true (Bool.and_eq_true_iff.1 h).1

/-- Computed variables are looked at within the default limits. -/
theorem computedReads_of_mem {names : List String} {d : VariableDecl} {dep : String}
    (hdep : dep ∈ d.reads {}) (hn : dep ∈ names) : computedReads names d = true := by
  obtain ⟨htype, src, e, hsrc, he, hdep⟩ := VariableDecl.mem_reads_iff.1 hdep
  refine Bool.and_eq_true_iff.2 ⟨decide_eq_true htype, ?_⟩
  rw [hsrc]
  refine List.any_eq_true.2 ⟨dep, ?_, decide_eq_true hn⟩
  rwa [Option.map_some, Option.getD_some, exprReads_of_parse (.refl _) he]

/-- No declaration reads what is neither declared nor on a cycle. -/
theorem reads_of_declares {r : Rules} {declared : Dict VariableDecl} (h : Declares r [] declared) :
    ∀ d ∈ declared.map (·.2), ∀ dep ∈ d.reads r.eval,
      dep ∈ Dict.keys declared ∨ dep ∈ r.cyclic := by
  induction h with
  | refl => exact List.forall_mem_nil _
  | @snoc ds d _ _ hd ih =>
    have hkeys : ∀ dep, dep ∈ Dict.keys ds ∨ dep ∈ r.cyclic →
        dep ∈ Dict.keys (ds ++ [(d.name, d)]) ∨ dep ∈ r.cyclic := fun dep hdep =>
      hdep.imp_left fun hmem => by
        rw [Dict.keys, List.map_append]
        exact List.mem_append_left _ hmem
    rw [List.map_append]
    refine List.forall_mem_append.2 ⟨fun d' hd' dep hdep => hkeys dep (ih d' hd' dep hdep), ?_⟩
    refine List.forall_mem_singleton.2 fun dep hdep => hkeys dep ?_
    obtain ⟨htype, src, e, hsrc, he, hdep⟩ := VariableDecl.mem_reads_iff.1 hdep
    obtain ⟨-, src', e', hsrc', he', hreads⟩ := hd.computed htype
    obtain rfl : src = src' := Option.some.inj (hsrc.symm.trans hsrc')
    obtain rfl : e = e' := Except.ok.inj (he.symm.trans he')
    exact hreads dep (Expr.mem_dependencies.1 hdep)

/-- One pass finds each reader that the default limits let be seen, whatever it starts with. A
computed variable is on no cycle, so those in front of it do not read it. -/
theorem mem_readers {r : Rules} {declared : Dict VariableDecl} (h : Declares r [] declared)
    (start : List String) : ∀ d ∈ declared.map (·.2), ∀ dep ∈ d.reads r.eval, dep ∈ d.reads {} →
      dep ∈ (declared.map (·.2)).foldl addReader start →
      d.name ∈ (declared.map (·.2)).foldl addReader start := by
  induction h with
  | refl => exact List.forall_mem_nil _
  | @snoc ds d hds hfresh hd ih =>
    rw [List.map_append, List.foldl_append]
    intro d' hd' dep hdep hseen hmem
    change dep ∈ addReader _ d at hmem
    change d'.name ∈ addReader _ d
    rcases mem_addReader.1 hmem with hn | ⟨hcomputed, rfl⟩
    · rcases List.mem_append.1 hd' with hd' | hd'
      · exact mem_addReader.2 (.inl (ih d' hd' dep hdep hseen hn))
      · obtain rfl := List.mem_singleton.1 hd'
        exact mem_addReader.2 (.inr ⟨computedReads_of_mem hseen hn, rfl⟩)
    · have hacyclic := (hd.computed (type_of_computedReads hcomputed)).1
      rcases List.mem_append.1 hd' with hd' | hd'
      · exact absurd (reads_of_declares hds d' hd' _ hdep) (not_or.2 ⟨hfresh, hacyclic⟩)
      · obtain rfl := List.mem_singleton.1 hd'
        exact mem_addReader.2 (.inr ⟨hcomputed, rfl⟩)

theorem subset_readers (ds : List VariableDecl) (start : List String) :
    start ⊆ ds.foldl addReader start := by
  induction ds generalizing start with
  | nil => exact List.Subset.refl _
  | cons d ds ih => exact List.Subset.trans (fun _ h => mem_addReader.2 (.inl h)) (ih _)

/-- Whose values do not come from the template alone. -/
def Given (d : VariableDecl) : Prop := d.persist = true ∨ d.type = .urlParam

section

variable (root : Node) (decls : List VariableDecl)

theorem written_subset_reactive : writtenVars root ⊆ reactive root decls := fun _ h =>
  subset_readers decls _ (mem_addAllNew.2 (.inl (mem_addAllNew.2 (.inr h))))

theorem given_mem_reactive {d : VariableDecl} (hd : d ∈ decls) (h : Given d) :
    d.name ∈ reactive root decls := by
  refine subset_readers decls _ (mem_addAllNew.2 (.inr (List.mem_map_of_mem ?_)))
  exact List.mem_filter.2 ⟨hd, by simpa [Given] using h⟩

end

theorem mem_reactive {r : Rules} {declared : Dict VariableDecl} (h : Declares r [] declared)
    (root : Node) {d : VariableDecl} (hd : d ∈ declared.map (·.2)) {dep : String}
    (hdep : dep ∈ d.reads r.eval) (hseen : dep ∈ d.reads {})
    (hmem : dep ∈ reactive root (declared.map (·.2))) :
    d.name ∈ reactive root (declared.map (·.2)) :=
  mem_readers h _ d hd dep hdep hseen hmem

theorem closed_reactive {r : Rules} {declared : Dict VariableDecl} (h : Declares r [] declared)
    (hl : r.eval.Le {}) (root : Node) :
    ClosedUnder r.eval (declared.map (·.2)) (reactive root (declared.map (·.2))) :=
  fun _ hd _ hdep hmem => mem_reactive h root hd hdep (VariableDecl.reads_mono hl hdep) hmem

/-! ## The least closed set -/

/-- The set has what the tree writes and what comes from outside, and with a name its readers. -/
structure Closed (root : Node) (ds : List VariableDecl) (names : Set String) : Prop where
  written : ∀ n ∈ root.walk, ∀ b ∈ n.bindings, ∀ step ∈ Action.leaves b.actions,
    ∀ var, step.target? = some var → var ∈ names
  fields : ∀ n ∈ root.walk, n.dsl? = some .textInput ∨ n.dsl? = some .checkbox →
    ∀ var, n.attr? "var" = some var → var ∈ names
  given : ∀ d ∈ ds, Given d → d.name ∈ names
  readers : ∀ d ∈ ds, ∀ dep ∈ names, d.Reads dep → d.name ∈ names

theorem exists_of_computedReads {names : List String} {d : VariableDecl}
    (h : computedReads names d = true) : ∃ dep ∈ d.reads {}, dep ∈ names := by
  obtain ⟨htype, hany⟩ := Bool.and_eq_true_iff.1 h
  obtain ⟨dep, hdep, hin⟩ := List.any_eq_true.1 hany
  refine ⟨dep, ?_, of_decide_eq_true hin⟩
  cases hsrc : d.expression with
  | none =>
    rw [hsrc] at hdep
    cases hdep
  | some src =>
    rw [hsrc, Option.map_some, Option.getD_some, exprReads] at hdep
    split at hdep
    · rename_i e he
      exact VariableDecl.mem_reads_iff.2 ⟨of_decide_eq_true htype, src, e, hsrc, he, hdep⟩
    · cases hdep

/-- What one pass adds are computed variables. -/
theorem mem_readers_cases {ds : List VariableDecl} {start : List String} {name : String}
    (h : name ∈ ds.foldl addReader start) :
    name ∈ start ∨ ∃ d ∈ ds, d.type = .computed ∧ d.name = name := by
  induction ds generalizing start with
  | nil => exact .inl h
  | cons d ds ih =>
    rcases ih h with hname | ⟨d', hd', hcomputed⟩
    · rcases mem_addReader.1 hname with hname | ⟨hreads, rfl⟩
      · exact .inl hname
      · exact .inr ⟨d, List.mem_cons_self, type_of_computedReads hreads, rfl⟩
    · exact .inr ⟨d', List.mem_cons_of_mem _ hd', hcomputed⟩

/-- When a reader is passed, all of what it reads has been found that will be. -/
theorem readers_closed {ds : List VariableDecl} (hreadable : ∀ d ∈ ds, d.Readable)
    (hlayered : VariableDecl.Layered ds) (start : List String) {d : VariableDecl} (hd : d ∈ ds)
    {dep : String} (hdep : d.Reads dep) (hmem : dep ∈ ds.foldl addReader start) :
    d.name ∈ ds.foldl addReader start := by
  obtain ⟨before, after, rfl⟩ := List.append_of_mem hd
  rw [List.foldl_append] at hmem ⊢
  refine subset_readers after _ (mem_addReader.2 ?_)
  rcases mem_readers_cases hmem with hfound | ⟨d', hd', htype, rfl⟩
  · exact .inr ⟨computedReads_of_mem ((hreadable d hd).mem_reads hdep) hfound, rfl⟩
  · exact absurd hdep (hlayered.not_reads hd' htype)

/-- Nothing is added that is not in every closed set. -/
theorem readers_subset {ds : List VariableDecl} {start : List String} {names : Set String}
    (hstart : ∀ name ∈ start, name ∈ names)
    (hreaders : ∀ d ∈ ds, ∀ dep ∈ names, d.Reads dep → d.name ∈ names) :
    ∀ name ∈ ds.foldl addReader start, name ∈ names := by
  induction ds generalizing start with
  | nil => exact hstart
  | cons d ds ih =>
    obtain ⟨hd, hds⟩ := List.forall_mem_cons.1 hreaders
    refine ih (fun name hname => ?_) hds
    rcases mem_addReader.1 hname with hname | ⟨hreads, rfl⟩
    · exact hstart name hname
    · obtain ⟨dep, hdep, hin⟩ := exists_of_computedReads hreads
      exact hd dep (hstart dep hin) ⟨{}, hdep⟩

theorem mem_writtenVars_iff {root : Node} {var : String} :
    var ∈ writtenVars root ↔ ∃ n ∈ root.walk,
      (∃ b ∈ n.bindings, ∃ step ∈ Action.leaves b.actions, step.target? = some var) ∨
        n.inputVar? = some var := by
  simp only [writtenVars, List.mem_flatMap, List.mem_append, EventBinding.targets,
    Action.mem_targetsAll_iff, Option.mem_toList]

theorem inputVar?_eq_some_iff {n : Node} {var : String} : n.inputVar? = some var ↔
    (n.dsl? = some .textInput ∨ n.dsl? = some .checkbox) ∧ n.attr? "var" = some var := by
  unfold Node.inputVar?
  split
  · simp [*]
  · simp [*]
  · rename_i htext hcheck
    refine ⟨fun h => (by cases h), ?_⟩
    rintro ⟨h | h, -⟩
    · exact absurd h htext
    · exact absurd h hcheck

theorem nodup_reactive (root : Node) (ds : List VariableDecl) : (reactive root ds).Nodup := by
  refine List.foldlRecOn ds addReader (motive := List.Nodup) ?_ fun names hnames d _ => ?_
  · exact nodup_addAllNew (nodup_addAllNew List.nodup_nil _) _
  · unfold addReader
    split
    · exact nodup_addNew hnames _
    · exact hnames

theorem closed_of_layered (root : Node) {ds : List VariableDecl} (hreadable : ∀ d ∈ ds, d.Readable)
    (hlayered : VariableDecl.Layered ds) : Closed root ds {name | name ∈ reactive root ds} where
  written n hn b hb step hstep _ hvar :=
    written_subset_reactive root ds
      (mem_writtenVars_iff.2 ⟨n, hn, .inl ⟨b, hb, step, hstep, hvar⟩⟩)
  fields n hn hfield _ hvar :=
    written_subset_reactive root ds
      (mem_writtenVars_iff.2 ⟨n, hn, .inr (inputVar?_eq_some_iff.2 ⟨hfield, hvar⟩)⟩)
  given _ hd hgiven := given_mem_reactive root ds hd hgiven
  readers _ hd _ hmem hdep := readers_closed hreadable hlayered _ hd hdep hmem

/-- Whatever the order is, nothing is found that need not be there. -/
theorem Closed.mem_of_reactive {root : Node} {ds : List VariableDecl} {names : Set String}
    (h : Closed root ds names) : ∀ name ∈ reactive root ds, name ∈ names := by
  refine readers_subset (fun name hname => ?_) h.readers
  rcases mem_addAllNew.1 hname with hname | hname
  · obtain ⟨n, hn, hvar⟩ := mem_writtenVars_iff.1
      ((mem_addAllNew.1 hname).resolve_left List.not_mem_nil)
    rcases hvar with ⟨b, hb, step, hstep, hvar⟩ | hvar
    · exact h.written n hn b hb step hstep name hvar
    · obtain ⟨hfield, hvar⟩ := inputVar?_eq_some_iff.1 hvar
      exact h.fields n hn hfield name hvar
  · obtain ⟨d, hd, rfl⟩ := List.mem_map.1 hname
    obtain ⟨hd, hgiven⟩ := List.mem_filter.1 hd
    exact h.given d hd (by simpa [Given] using hgiven)

/-- If each computed variable is declared behind all the computed ones that it reads, and all can be
read, then one pass finds the least closed set, each of its names once. -/
theorem reactive_isLeast (root : Node) {ds : List VariableDecl}
    (hreadable : ∀ d ∈ ds, d.Readable) (hlayered : VariableDecl.Layered ds) :
    (reactive root ds).Nodup ∧
      IsLeast {names | Closed root ds names} {name | name ∈ reactive root ds} :=
  ⟨nodup_reactive root ds, closed_of_layered root hreadable hlayered,
    fun _ hclosed => hclosed.mem_of_reactive⟩

/-- A button that raises a price. -/
def priceTree : Node := .fragment
  [{ tag := .dsl .button, attributes := []
     bindings := [⟨.click, none, [.sequence [.increment "price" (.value (.number 1))]]⟩] }]

/-- A computed variable. -/
def computedBy (name src : String) : VariableDecl :=
  { name, type := .computed, initial := .undefined, expression := some src }

/-- The label is of a total that is computed from the price; the motto is beside all that. -/
def priceDecls : List VariableDecl :=
  [{ name := "price", type := .number, initial := .number 2 }, computedBy "total" "$vars.price * 3",
    computedBy "motto" "'none'", computedBy "label" "$vars.total"]

/-- The total and the label follow the price, and the motto does not. -/
theorem reactive_isLeast_price :
    (∀ d ∈ priceDecls, d.Readable) ∧ VariableDecl.Layered priceDecls ∧
      reactive priceTree priceDecls = ["price", "total", "label"] ∧
      IsLeast {names | Closed priceTree priceDecls names} {"price", "total", "label"} := by
  have hreadable : ∀ d ∈ priceDecls, d.Readable := fun d hd _ src hsrc => by
    have hparsed : ∀ d ∈ priceDecls, ∀ src ∈ d.expression,
      (Expr.parse {} src).toOption.isSome = true := by decide +kernel
    obtain ⟨e, he⟩ := Option.isSome_iff_exists.1 (hparsed d hd src hsrc)
    exact ⟨e, toOption_eq_some.1 he⟩
  have horder : (∀ d ∈ priceDecls, d.type = .computed → d.name ∉ d.reads {}) ∧
      priceDecls.Pairwise fun d d' => d'.type = .computed → d'.name ∉ d.reads {} := by
    decide +kernel
  have hlayered : VariableDecl.Layered priceDecls :=
    ⟨fun d hd htype hreads => horder.1 d hd htype ((hreadable d hd).mem_reads hreads),
      horder.2.imp_of_mem fun hd _ hnot htype hreads =>
        hnot htype ((hreadable _ hd).mem_reads hreads)⟩
  have hnames : reactive priceTree priceDecls = ["price", "total", "label"] := by decide +kernel
  refine ⟨hreadable, hlayered, hnames, ?_⟩
  have hset : {name | name ∈ reactive priceTree priceDecls} = {"price", "total", "label"} := by
    ext name
    simp [hnames]
  exact hset ▸ (reactive_isLeast priceTree hreadable hlayered).2

end Template

end Archipelago
