import Archipelago.Compile
import Archipelago.Page.Render
import Archipelago.Proofs.Expr.Failures

/-!
# When a condition holds

A condition is checked part by part, and the first part that does not hold ends the check. Whatever
is left out by that, the answer is that of all parts together, with one exception: of the
comparisons of a value only one is made.
-/

namespace Archipelago.Page

open Template (Comparison splitPaths)

/-- If the check does not fail, it tells whether this is so. -/
abbrev Tells (P : Prop) (x : Except EvalError Bool) : Prop :=
  Yields (fun _ => True) (fun b => b = true ↔ P) x

namespace Tells

variable {P Q : Prop} {x y : Except EvalError Bool}

theorem congr (h : Tells P x) (hpq : P ↔ Q) : Tells Q x := h.mono fun _ hb => hb.trans hpq

/-- A check that ends when its first part does not hold. -/
theorem and (hx : Tells P x) (hy : Tells Q y) :
    Tells (P ∧ Q) (x >>= fun b => if (!b) = true then pure false else y) := by
  refine hx.bind fun b hb => ?_
  cases b with
  | false =>
    have hp : ¬P := fun hp => Bool.false_ne_true (hb.2 hp)
    exact iff_of_false Bool.false_ne_true fun h => hp h.1
  | true => exact hy.mono fun b' hb' => hb'.trans (and_iff_right (hb.1 rfl)).symm

end Tells

namespace View

variable (v : View)

/-! ## What the attributes of a condition ask for -/

/-- The path comes to a value that counts as true. -/
def Truthy (path : String) : Prop := ∃ value, v.evalPath path = .ok value ∧ value.isTruthy = true

/-- The path comes to a value that the comparison with this text holds for. -/
def Passes (c : Comparison) (path text : String) : Prop :=
  ∃ value, v.evalPath path = .ok value ∧ c.holds value (.ofLiteral text) = .ok true

/-- All that the attributes of a branch ask for, where these comparisons count. -/
structure Satisfies (n : Template.Node) (counts : Comparison → Prop) : Prop where
  condition : ∀ src, n.attr? "condition" = some src →
    ∃ value, v.evalExpr src = .ok value ∧ value.isTruthy = true
  comparisons : ∀ path, n.attr? "var" = some path → ∀ c, counts c → ∀ text,
    n.attr? c.name = some text → v.Passes c path text
  var : ∀ path, n.attr? "var" = some path → (∀ c : Comparison, n.attr? c.name = none) →
    v.Truthy path
  and : ∀ paths, n.attr? "and" = some paths → ∀ path ∈ splitPaths paths, v.Truthy path
  or : ∀ paths, n.attr? "or" = some paths → ∃ path ∈ splitPaths paths, v.Truthy path
  not : ∀ path, n.attr? "not" = some path → ¬v.Truthy path

/-- No attribute of a branch fails to be evaluated, as far as it is looked at. -/
structure Evaluates (n : Template.Node) : Prop where
  condition : ∀ src, n.attr? "condition" = some src → ∃ value, v.evalExpr src = .ok value
  var : ∀ path, n.attr? "var" = some path → ∃ b, v.pathCompares n path = .ok b
  and : ∀ paths, n.attr? "and" = some paths → ∃ b, v.allHold (splitPaths paths) = .ok b
  or : ∀ paths, n.attr? "or" = some paths → ∃ b, v.anyHolds (splitPaths paths) = .ok b
  not : ∀ path, n.attr? "not" = some path → ∃ value, v.evalPath path = .ok value

/-- The comparison that a branch makes: the first in the order of their table that it has. -/
def Makes (n : Template.Node) (c : Comparison) : Prop :=
  Comparison.all.find? (fun c => (n.attr? c.name).isSome) = some c

/-! ## The parts -/

variable {v} {n : Template.Node}

theorem tells_truthy {α : Type} {x : Except EvalError α} {f : α → Bool} :
    Tells (∃ a, x = .ok a ∧ f a = true) (do return f (← x)) := by
  cases x with
  | error e => exact True.intro
  | ok a => exact ⟨fun h => ⟨a, rfl, h⟩, fun ⟨_, ha, h⟩ => Except.ok.inj ha ▸ h⟩

theorem tells_pathHolds (path : String) : Tells (v.Truthy path) (v.pathHolds path) := tells_truthy

theorem tells_not (path : String) :
    Tells (¬v.Truthy path) (do return !(← v.pathHolds path)) := by
  refine (tells_pathHolds path).bind fun b hb => ?_
  cases b with
  | false => exact iff_of_true rfl fun h => Bool.false_ne_true (hb.2 h)
  | true => exact iff_of_false Bool.false_ne_true fun h => h (hb.1 rfl)

theorem tells_allHold (paths : List String) :
    Tells (∀ path ∈ paths, v.Truthy path) (v.allHold paths) := by
  induction paths with
  | nil => exact iff_of_true rfl (List.forall_mem_nil _)
  | cons path paths ih =>
    refine (tells_pathHolds path).bind fun b hb => ?_
    cases b with
    | false =>
      exact iff_of_false Bool.false_ne_true fun h =>
        Bool.false_ne_true (hb.2 (h path List.mem_cons_self))
    | true =>
      exact ih.congr (by rw [List.forall_mem_cons, and_iff_right (hb.1 rfl)])

theorem tells_anyHolds (paths : List String) :
    Tells (∃ path ∈ paths, v.Truthy path) (v.anyHolds paths) := by
  induction paths with
  | nil => exact iff_of_false Bool.false_ne_true fun ⟨_, h, _⟩ => List.not_mem_nil h
  | cons path paths ih =>
    refine (tells_pathHolds path).bind fun b hb => ?_
    cases b with
    | false =>
      have hfalse : ¬v.Truthy path := fun h => Bool.false_ne_true (hb.2 h)
      exact ih.congr (by simp [hfalse])
    | true => exact iff_of_true rfl ⟨path, List.mem_cons_self, hb.1 rfl⟩

/-- A part without its attribute holds. -/
theorem tells_part (attr : String) {f : String → Except EvalError Bool} {P : String → Prop}
    (h : ∀ text, Tells (P text) (f text)) :
    Tells (∀ text, n.attr? attr = some text → P text) (part n attr f) := by
  unfold part
  cases n.attr? attr with
  | none => exact iff_of_true rfl nofun
  | some text => exact (h text).congr ⟨fun hp _ he => Option.some.inj he ▸ hp, fun hp => hp _ rfl⟩

theorem mem_all (c : Comparison) : c ∈ Comparison.all := by
  cases c
  all_goals decide

theorem comparison?_eq_none : comparison? n = none ↔ ∀ c : Comparison, n.attr? c.name = none := by
  unfold comparison?
  simp only [List.findSome?_eq_none_iff, Option.map_eq_none_iff]
  exact ⟨fun h c => h c (mem_all c), fun h c _ => h c⟩

theorem comparison?_eq_some {c : Comparison} {operand : Value}
    (h : comparison? n = some (c, operand)) :
    Makes n c ∧ ∃ text, n.attr? c.name = some text ∧ operand = .ofLiteral text := by
  unfold comparison? at h
  unfold Makes
  generalize Comparison.all = cs at h ⊢
  induction cs with
  | nil => cases h
  | cons d ds ih =>
    rw [List.findSome?_cons] at h
    cases hd : n.attr? d.name with
    | none =>
      rw [hd] at h
      obtain ⟨hfind, htext⟩ := ih h
      exact ⟨by rw [List.find?_cons_of_neg (by simp [hd]), hfind], htext⟩
    | some text =>
      rw [hd] at h
      obtain ⟨rfl, rfl⟩ := Prod.mk.inj (Option.some.inj h)
      exact ⟨List.find?_cons_of_pos (by simp [hd]), text, hd, rfl⟩

theorem tells_pathCompares (path : String) :
    Tells ((∀ c, Makes n c → ∀ text, n.attr? c.name = some text → v.Passes c path text) ∧
      ((∀ c : Comparison, n.attr? c.name = none) → v.Truthy path)) (v.pathCompares n path) := by
  unfold pathCompares
  cases hvalue : v.evalPath path with
  | error e => exact True.intro
  | ok value =>
    cases hmade : comparison? n with
    | none =>
      have hnone := comparison?_eq_none.1 hmade
      refine ⟨fun h => ⟨fun c _ text htext => ?_, fun _ => ⟨value, hvalue, h⟩⟩, fun h => ?_⟩
      · rw [hnone c] at htext
        cases htext
      · obtain ⟨_, hvalue', htruthy⟩ := h.2 hnone
        rwa [← Except.ok.inj (hvalue.symm.trans hvalue')] at htruthy
    | some x =>
      obtain ⟨c, operand⟩ := x
      obtain ⟨hmakes, text, htext, rfl⟩ := comparison?_eq_some hmade
      show Tells _ (c.holds value (.ofLiteral text))
      cases hb : c.holds value (.ofLiteral text) with
      | error e => exact True.intro
      | ok b =>
        refine ⟨fun h => ⟨fun d hd text' htext' => ?_, fun hnone => ?_⟩, fun h => ?_⟩
        · obtain rfl := Option.some.inj (hmakes.symm.trans hd)
          obtain rfl := Option.some.inj (htext.symm.trans htext')
          exact ⟨value, hvalue, h ▸ hb⟩
        · rw [hnone c] at htext
          cases htext
        · obtain ⟨_, hvalue', hpasses⟩ := h.1 c hmakes text htext
          obtain rfl := Except.ok.inj (hvalue.symm.trans hvalue')
          exact Except.ok.inj (hb.symm.trans hpasses)

/-! ## The whole -/

/-- The check tells whether all is as the attributes ask for, but for comparisons not made. -/
theorem tells_holds (v : View) (n : Template.Node) :
    Tells (v.Satisfies n (Makes n)) (v.holds n) := by
  have hcondition : Tells _ (part n "condition" v.exprHolds) :=
    tells_part "condition" fun _ => tells_truthy
  have hvar := tells_part (n := n) "var" (tells_pathCompares (v := v) (n := n))
  have hand := tells_part (n := n) "and" fun paths => tells_allHold (v := v) (splitPaths paths)
  have hor := tells_part (n := n) "or" fun paths => tells_anyHolds (v := v) (splitPaths paths)
  have hnot := tells_part (n := n) "not" (tells_not (v := v))
  refine (hcondition.and (hvar.and (hand.and (hor.and hnot)))).congr ⟨?_, ?_⟩
  · rintro ⟨hcondition, hvar, hand, hor, hnot⟩
    exact ⟨hcondition, fun path hp => (hvar path hp).1, fun path hp => (hvar path hp).2, hand, hor,
      hnot⟩
  · rintro ⟨hcondition, hcomparisons, hvar, hand, hor, hnot⟩
    exact ⟨hcondition, fun path hp => ⟨hcomparisons path hp, hvar path hp⟩, hand, hor, hnot⟩

/-- All that is asked for is what the check looks at, and the comparisons that are not made. -/
theorem satisfies_all_iff : v.Satisfies n (fun _ => True) ↔ v.Satisfies n (Makes n) ∧
    ∀ path, n.attr? "var" = some path → ∀ (c : Comparison) (text : String),
      n.attr? c.name = some text → v.Passes c path text := by
  constructor
  · intro h
    have hcomparisons : ∀ path, n.attr? "var" = some path → ∀ (c : Comparison) (text : String),
        n.attr? c.name = some text → v.Passes c path text :=
      fun path hp c text => h.comparisons path hp c True.intro text
    exact ⟨{ h with comparisons := fun path hp c _ => hcomparisons path hp c }, hcomparisons⟩
  · rintro ⟨h, hcomparisons⟩
    exact { h with comparisons := fun path hp c _ => hcomparisons path hp c }

/-- Of a single comparison none is left out. -/
theorem makes_of_single (hsingle : ∀ c d : Comparison, (n.attr? c.name).isSome = true →
    (n.attr? d.name).isSome = true → c = d) {c : Comparison}
    (hc : (n.attr? c.name).isSome = true) : Makes n c := by
  unfold Makes
  cases hd : Comparison.all.find? fun c => (n.attr? c.name).isSome with
  | none => exact absurd hc (List.find?_eq_none.1 hd c (mem_all c))
  | some d =>
    have hmade : (n.attr? d.name).isSome = true :=
      List.find?_some (p := fun c : Comparison => (n.attr? c.name).isSome) hd
    rw [hsingle c d hc hmade]

theorem part_evaluates {attr : String} {f : String → Except EvalError Bool}
    (h : ∀ text, n.attr? attr = some text → ∃ b, f text = .ok b) : ∃ b, part n attr f = .ok b := by
  unfold part
  cases hattr : n.attr? attr with
  | none => exact ⟨true, rfl⟩
  | some text => exact h text hattr

theorem and_evaluates {x y : Except EvalError Bool} (hx : ∃ b, x = .ok b) (hy : ∃ b, y = .ok b) :
    ∃ b, (x >>= fun b => if (!b) = true then pure false else y) = .ok b := by
  obtain ⟨b, rfl⟩ := hx
  cases b with
  | false => exact ⟨false, rfl⟩
  | true => exact hy

theorem Evaluates.holds (h : v.Evaluates n) : ∃ b, v.holds n = .ok b := by
  have hcondition : ∃ b, part n "condition" v.exprHolds = .ok b := part_evaluates fun src hsrc => by
    obtain ⟨value, hvalue⟩ := h.condition src hsrc
    exact ⟨value.isTruthy, bind_eq_ok.2 ⟨value, hvalue, rfl⟩⟩
  have hnot : ∃ b, (part n "not" fun path => do return !(← v.pathHolds path)) = .ok b :=
    part_evaluates fun path hpath => by
      obtain ⟨value, hvalue⟩ := h.not path hpath
      exact ⟨!value.isTruthy, bind_eq_ok.2 ⟨_, bind_eq_ok.2 ⟨value, hvalue, rfl⟩, rfl⟩⟩
  exact and_evaluates hcondition (and_evaluates (part_evaluates h.var)
    (and_evaluates (part_evaluates h.and) (and_evaluates (part_evaluates h.or) hnot)))

end View

/-- A condition none of whose attributes fails holds if all that they ask for is so, where only the
first comparison counts. So it holds for all of them unless it holds in spite of a later one, which
no condition with a single comparison does. -/
theorem condition_iff {v : View} {n : Template.Node} (h : v.Evaluates n) :
    ∃ b, condition v n = pure b ∧ (b = true ↔ v.Satisfies n (View.Makes n)) ∧
      ((b = true ↔ v.Satisfies n fun _ => True) ↔ (b = true → ∀ path, n.attr? "var" = some path →
        ∀ (c : Comparison) (text : String), n.attr? c.name = some text → v.Passes c path text)) ∧
      ((∀ c d : Comparison, (n.attr? c.name).isSome = true → (n.attr? d.name).isSome = true →
        c = d) → (b = true ↔ v.Satisfies n fun _ => True)) := by
  obtain ⟨b, hb⟩ := h.holds
  have htells : b = true ↔ v.Satisfies n (View.Makes n) := (View.tells_holds v n).ok hb
  refine ⟨b, ?_, htells, ?_, fun hsingle => ?_⟩
  · unfold condition
    rw [hb]
  · rw [View.satisfies_all_iff, ← htells]
    exact iff_self_and
  · rw [View.satisfies_all_iff, ← htells, iff_self_and]
    intro hholds path hp c text htext
    have hmakes := View.makes_of_single hsingle (Option.isSome_iff_exists.2 ⟨text, htext⟩)
    exact (htells.1 hholds).comparisons path hp c hmakes text htext

/-- A view of a page with one guest and nobody away. -/
def guestView : View where
  limits := {}
  scope :=
    { lookup := fun name =>
        if name = "who" then some (.string "eve")
        else if name = "away" then some (.string "") else none
      resident := .undefined }

/-- Whoever is there, if these comparisons let them in. -/
def guestMarkup (comparisons : String) : String :=
  "<Var name=\"who\" initial=\"eve\"/><Var name=\"away\"/><If var=\"who\" " ++ comparisons
    ++ " or=\"away,who\" not=\"away\">in</If>"

/-- The attributes of such a branch, but for the comparisons. -/
abbrev IsGuest (n : Template.Node) : Prop :=
  n.dsl? = some .ifBranch ∧ n.attr? "condition" = none ∧ n.attr? "var" = some "who" ∧
    n.attr? "and" = none ∧ n.attr? "or" = some "away,who" ∧ n.attr? "not" = some "away"

theorem evaluates_guest {n : Template.Node} (h : IsGuest n) {b : Bool}
    (hvar : guestView.pathCompares n "who" = .ok b) : guestView.Evaluates n := by
  obtain ⟨-, hcondition, hwho, hand, hor, hnot⟩ := h
  have hany : (guestView.anyHolds (splitPaths "away,who")).toOption = some true := by decide +kernel
  have haway : (guestView.evalPath "away").toOption.isSome = true := by decide +kernel
  refine ⟨fun src hsrc => ?_, fun path hpath => ?_, fun paths hpaths => ?_, fun paths hpaths => ?_,
    fun path hpath => ?_⟩
  · cases hcondition.symm.trans hsrc
  · obtain rfl := Option.some.inj (hwho.symm.trans hpath)
    exact ⟨b, hvar⟩
  · cases hand.symm.trans hpaths
  · obtain rfl := Option.some.inj (hor.symm.trans hpaths)
    exact ⟨true, toOption_eq_some.1 hany⟩
  · obtain rfl := Option.some.inj (hnot.symm.trans hpath)
    obtain ⟨value, hvalue⟩ := Option.isSome_iff_exists.1 haway
    exact ⟨value, toOption_eq_some.1 hvalue⟩

/-- With one comparison the branch is shown just if all that its attributes ask for holds. -/
theorem condition_guest : ∃ t n, (compile {} (guestMarkup "contains=\"v\"")).template? = some t ∧
    n ∈ t.root.walk ∧ n.dsl? = some .ifBranch ∧
    ∃ b, condition guestView n = pure b ∧ (b = true ↔ guestView.Satisfies n fun _ => True) := by
  have he : ((compile {} (guestMarkup "contains=\"v\"")).template?.bind fun t =>
      t.root.walk.findSome? fun n => if n.dsl? = some .ifBranch then
        some (decide (IsGuest n ∧ (guestView.pathCompares n "who").toOption = some true ∧
          ∀ c ∈ Comparison.all, (n.attr? c.name).isSome = true → c = .contains)) else none) =
      some true := by
    decide +kernel
  obtain ⟨t, ht, he⟩ := Option.bind_eq_some_iff.1 he
  obtain ⟨n, hn, he⟩ := List.exists_of_findSome?_eq_some he
  obtain ⟨hbranch, he⟩ := Option.ite_none_right_eq_some.1 he
  obtain ⟨hguest, hvar, hsingle⟩ := of_decide_eq_true (Option.some.inj he)
  obtain ⟨b, hb, -, -, hiff⟩ := condition_iff (evaluates_guest hguest (toOption_eq_some.1 hvar))
  refine ⟨t, n, ht, hn, hbranch, b, hb, hiff fun c d hc hd => ?_⟩
  rw [hsingle c (View.mem_all c) hc, hsingle d (View.mem_all d) hd]

/-- Of two comparisons the one that does not hold is left out. -/
theorem not_condition_guest : ∃ t n,
    (compile {} (guestMarkup "notEquals=\"ann\" contains=\"x\"")).template? = some t ∧
    n ∈ t.root.walk ∧ n.dsl? = some .ifBranch ∧ guestView.Evaluates n ∧
    n.attr? "var" = some "who" ∧ n.attr? "contains" = some "x" ∧
    (guestView.evalPath "who" >>= fun value => Comparison.contains.holds value (.ofLiteral "x")) =
      .ok false ∧
    condition guestView n = pure true ∧ ¬guestView.Satisfies n fun _ => True := by
  have he : ((compile {} (guestMarkup "notEquals=\"ann\" contains=\"x\"")).template?.bind fun t =>
      t.root.walk.findSome? fun n => if n.dsl? = some .ifBranch then
        some (decide (IsGuest n ∧ (guestView.pathCompares n "who").toOption = some true ∧
          (guestView.holds n).toOption = some true ∧ n.attr? "contains" = some "x")) else none) =
      some true := by
    decide +kernel
  have hfails : (guestView.evalPath "who" >>= fun value =>
      Comparison.contains.holds value (.ofLiteral "x")).toOption = some false := by
    decide +kernel
  obtain ⟨t, ht, he⟩ := Option.bind_eq_some_iff.1 he
  obtain ⟨n, hn, he⟩ := List.exists_of_findSome?_eq_some he
  obtain ⟨hbranch, he⟩ := Option.ite_none_right_eq_some.1 he
  obtain ⟨hguest, hvar, hholds, hcontains⟩ := of_decide_eq_true (Option.some.inj he)
  have hfails := toOption_eq_some.1 hfails
  refine ⟨t, n, ht, hn, hbranch, evaluates_guest hguest (toOption_eq_some.1 hvar), hguest.2.2.1,
    hcontains, hfails, ?_, fun h => ?_⟩
  · unfold condition
    rw [toOption_eq_some.1 hholds]
  · obtain ⟨value, hvalue, hpasses⟩ :=
      h.comparisons "who" hguest.2.2.1 .contains True.intro "x" hcontains
    rw [hvalue] at hfails
    cases hfails.symm.trans hpasses

end Archipelago.Page
