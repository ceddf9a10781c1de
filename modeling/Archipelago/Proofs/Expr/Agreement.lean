import Archipelago.Expr.Eval
import Archipelago.Page.Render
import Archipelago.Proofs.Value.Plain

/-!
# What an evaluation depends on

An expression cannot tell two contexts apart that agree on its references. The references of a
tree are gathered into an accumulator, so each statement is about an accumulator that has some
already.
-/

namespace Archipelago

namespace References

/-- The second has all that the first has. -/
structure Le (r r' : References) : Prop where
  vars : ∀ name ∈ r.vars, name ∈ r'.vars
  bindings : ∀ name ∈ r.bindings, name ∈ r'.bindings
  resident : r.resident = true → r'.resident = true

theorem Le.refl (r : References) : Le r r := ⟨fun _ h => h, fun _ h => h, id⟩

theorem Le.trans {r r' r'' : References} (h : Le r r') (h' : Le r' r'') : Le r r'' where
  vars := fun name hn => h'.vars name (h.vars name hn)
  bindings := fun name hn => h'.bindings name (h.bindings name hn)
  resident := h'.resident ∘ h.resident

end References

/-! ## Frames -/

namespace Locals

/-- No frame binds a name twice: in a frame, binding a name again replaces what it was bound to. -/
def Distinct (l : Locals) : Prop := ∀ frame ∈ l, (Dict.keys frame).Nodup

theorem distinct_cons {frame : Dict Value} {outer : Locals} :
    Distinct (frame :: outer) ↔ (Dict.keys frame).Nodup ∧ outer.Distinct := List.forall_mem_cons

/-- A further frame, in which one name after another is bound. -/
theorem Distinct.bind {l : Locals} (h : l.Distinct) (entries : List (String × Value)) :
    Distinct (Dict.ofList entries :: l) :=
  distinct_cons.2 ⟨Dict.nodup_keys_ofList entries, h⟩

/-- What a name is bound to in a chain is what it is bound to in the one frame. -/
theorem get?_flatten {l : Locals} (h : l.Distinct) (name : String) :
    Dict.get? l.flatten name = l.get? name := by
  induction l with
  | nil => rfl
  | cons frame outer ih =>
    obtain ⟨hframe, houter⟩ := distinct_cons.1 h
    rw [flatten, Dict.get?_merge_of_nodup hframe, ih houter, get?]

/-- The one frame stands for the chain below any frames. -/
theorem get?_append_flatten {l : Locals} (h : l.Distinct) (inner : Locals) (name : String) :
    get? (inner ++ [l.flatten]) name = get? (inner ++ l) name := by
  induction inner with
  | nil => simp [get?, get?_flatten h]
  | cons frame inner ih => simp [get?, ih]

end Locals

/-- A loop binds its item and its place in a frame of their own. -/
theorem Page.View.distinct_bindItem {v : View} (h : v.locals.Distinct) (n : Template.Node)
    (item : Value) (index : Nat) : (v.bindItem n item index).locals.Distinct :=
  h.bind [((n.attr? "item").getD "item", item),
    ((n.attr? "index").getD "index", .number (Float.ofNat index))]

namespace Expr

open References (Le)

mutual

/-- Gathering loses nothing. -/
theorem le_collect (r : References) : (e : Expr) → Le r (collect r e)
  | literal _ => Le.refl r
  | var _ => ⟨fun _ h => mem_addNew.2 (.inl h), fun _ h => h, id⟩
  | resident => ⟨fun _ h => h, fun _ h => h, fun _ => rfl⟩
  | binding _ => ⟨fun _ h => h, fun _ h => mem_addNew.2 (.inl h), id⟩
  | member a _ | length a | text _ a | neg a | not a => le_collect r a
  | index a b | includes a b | arith _ a b | relation _ a b =>
    (le_collect r a).trans (le_collect (collect r a) b)
  | all es | any es => le_collectAll r es

theorem le_collectAll (r : References) : (es : List Expr) → Le r (collectAll r es)
  | [] => Le.refl r
  | e :: es => (le_collect r e).trans (le_collectAll (collect r e) es)

end

/-! ## Contexts that agree -/

/-- Two contexts give the same for these references. A variable may come from a binding in one
and from the store in the other. -/
structure Agree (r : References) (s t : Scope) (l m : Locals) : Prop where
  vars : ∀ name ∈ r.vars, (l.get? name).or (s.lookup name) = (m.get? name).or (t.lookup name)
  bindings : ∀ name ∈ r.bindings, l.get? name = m.get? name
  resident : r.resident = true → s.resident = t.resident

theorem Agree.mono {r r' : References} {s t : Scope} {l m : Locals} (h : Agree r' s t l m)
    (hle : Le r r') : Agree r s t l m where
  vars := fun name hn => h.vars name (hle.vars name hn)
  bindings := fun name hn => h.bindings name (hle.bindings name hn)
  resident := h.resident ∘ hle.resident

variable {s t : Scope} {l m : Locals}

mutual

theorem eval_congr (r : References) :
    (e : Expr) → Agree (collect r e) s t l m → eval s l e = eval t m e
  | literal _, _ => rfl
  | var name, h => by
    simp only [eval, h.vars name (mem_addNew.2 (.inr rfl))]
  | resident, h => by
    simp only [eval, h.resident rfl]
  | binding name, h => by
    simp only [eval, h.bindings name (mem_addNew.2 (.inr rfl))]
  | member a _, h | length a, h | text _ a, h | neg a, h | not a, h => by
    simp only [eval, eval_congr r a h]
  | index a b, h | includes a b, h | arith _ a b, h | relation _ a b, h => by
    simp only [eval, eval_congr r a (h.mono (le_collect (collect r a) b)),
      eval_congr (collect r a) b h]
  | all es, h => (evalTerms_congr r es h).1
  | any es, h => (evalTerms_congr r es h).2

/-- Terms that are joined, by either of the two joins. -/
theorem evalTerms_congr (r : References) : (es : List Expr) →
    Agree (collectAll r es) s t l m →
      evalAll s l es = evalAll t m es ∧ evalAny s l es = evalAny t m es
  | [], _ => ⟨rfl, rfl⟩
  | e :: es, h => by
    have hes := evalTerms_congr (collect r e) es h
    have he := eval_congr r e (h.mono (le_collectAll (collect r e) es))
    simp only [evalAll, evalAny, he, hes.1, hes.2, and_self]

end

/-- Under the same bindings, only the variables that an expression depends on and the resident
count. -/
theorem eval_eq_of_dependencies {e : Expr} (l : Locals)
    (hv : ∀ name ∈ e.dependencies, s.lookup name = t.lookup name)
    (hr : s.resident = t.resident) : e.eval s l = e.eval t l :=
  eval_congr .none e
    ⟨fun name hn => by rw [hv name hn], fun _ _ => rfl, fun _ => hr⟩

/-- The outcome depends on nothing but what the references tell: on the variables among them, on
what their names are bound to, and on the resident only where it is one of them. -/
theorem eval_eq_of_references {e : Expr}
    (hvars : ∀ name ∈ e.references.vars, s.lookup name = t.lookup name)
    (hlocals : ∀ name, name ∈ e.references.vars ∨ name ∈ e.references.bindings →
      l.get? name = m.get? name)
    (hresident : e.references.resident = true → s.resident = t.resident) :
    e.eval s l = e.eval t m := by
  refine eval_congr .none e ⟨fun name hname => ?_, fun name hname => ?_, hresident⟩
  · rw [hlocals name (.inl hname), hvars name hname]
  · exact hlocals name (.inr hname)

/-- Below a loop, in two scopes that have the variable `unit` in common, bound to the same item. -/
theorem eval_eq_of_references_price :
    let price : Expr := arith .add (member (binding "item") "price") (var "unit")
    let item : Value := .object [("price", .string "3")]
    let here : Scope := ⟨Dict.get? [("unit", .string " EUR"), ("page", .null)], .undefined⟩
    let there : Scope := ⟨Dict.get? [("unit", .string " EUR")], .string "profile"⟩
    price.eval here [[("item", item), ("index", .null)]] =
      price.eval there [[], [("item", item)]] := by
  intro price item here there
  refine eval_eq_of_references (e := price) ?_ ?_ ?_
  · simp [price, here, there, references, collect, References.none, References.addVar,
      References.addBinding, addNew, Dict.get?]
  · simp [price, references, collect, References.none, References.addVar, References.addBinding,
      addNew, Locals.get?, Dict.get?]
  · simp [price, references, collect, References.none, References.addVar, References.addBinding]

/-!
## Captured bindings

A handler keeps the bindings around it as one frame and runs long after the frames of the loops are
gone. An expression cannot tell: a name is found in the one frame as it is found in the chain, the
innermost frame first, and this goes on below the frame of an action over a list.
-/

/-- The one frame stands for the chain in every expression, below any further frames. -/
theorem eval_append_flatten {l : Locals} (h : l.Distinct) (inner : Locals) (scope : Scope)
    (e : Expr) : e.eval scope (inner ++ l) = e.eval scope (inner ++ [l.flatten]) := by
  have hget := Locals.get?_append_flatten h inner
  exact eval_congr .none e
    ⟨fun name _ => by rw [hget name], fun name _ => (hget name).symm, fun _ => rfl⟩

/-- An expression gives the same among the captured bindings as it gives where they are captured,
and also below a further frame, such as that of the item and the place that an action binds. -/
theorem eval_flatten {l : Locals} (h : l.Distinct) (scope : Scope) (e : Expr) :
    e.eval scope l = e.eval scope [l.flatten] ∧
      ∀ frame, e.eval scope (frame :: l) = e.eval scope [frame, l.flatten] :=
  ⟨eval_append_flatten h [] scope e, fun frame => eval_append_flatten h [frame] scope e⟩

/-- Two loops that both call their item `item`, the inner one within the outer one. -/
theorem eval_flatten_nested :
    let scope : Scope := ⟨fun _ => none, .undefined⟩
    let loop (index : String) : Template.Node :=
      { tag := .dsl .forEach, attributes := [("item", "item"), ("index", index)] }
    let around : Page.View := { limits := {}, scope }
    let outer : Page.View := around.bindItem (loop "row") (.string "a") 1
    let inner : Page.View := outer.bindItem (loop "column") (.string "b") 2
    let text : Expr := .arith .add (.binding "item") (.binding "row")
    inner.locals = [[("item", .string "b"), ("column", .number 2)],
        [("item", .string "a"), ("row", .number 1)]] ∧
      text.eval scope inner.locals = text.eval scope [inner.locals.flatten] ∧
      ∀ frame, text.eval scope (frame :: inner.locals) =
        text.eval scope [frame, inner.locals.flatten] := by
  intro scope loop around outer inner text
  have haround : around.locals.Distinct := List.forall_mem_nil _
  have houter : outer.locals.Distinct :=
    Page.View.distinct_bindItem haround (loop "row") (.string "a") 1
  have hinner : inner.locals.Distinct :=
    Page.View.distinct_bindItem houter (loop "column") (.string "b") 2
  exact ⟨rfl, eval_flatten hinner scope text⟩

end Expr

end Archipelago
