import Archipelago.Compile.Draft
import Archipelago.Page.Condition
import Archipelago.Proofs.Expr.Limits
import Archipelago.Proofs.Expr.Simulation
import Archipelago.Proofs.Expr.Tokens

/-!
# Paths

A path that starts with the name of a binding is read in two ways: for itself where it is shown, and
below the variables where it is checked. The two readings differ in their root only. They have the
same outcome as long as the word at the root is a bare name. One of the words that stand for a value
is not, although a loop may bind it.
-/

namespace Archipelago

namespace Expr

open Compile (isIdentifier)
open Archipelago.Expr.Parser (Alike Below)
open Text (isBlank)

/-! ## Readings -/

theorem parse_eq_ok {limits : EvalLimits} {src : String} {e : Expr} :
    parse limits src = .ok e ↔ src.utf8ByteSize ≤ limits.maxExpressionLength ∧
      ∃ toks, tokenize src.toList = .ok toks ∧
        parseTokens src.utf8ByteSize limits.maxNesting toks = .ok e := by
  unfold parse
  split
  · rename_i hlong
    exact ⟨fun h => (by cases h), fun h => absurd h.1 (by omega)⟩
  · rename_i hshort
    rw [bind_eq_ok]
    exact ⟨fun h => ⟨by omega, h⟩, fun h => h.2⟩

theorem parseTokens_eq_ok {stop limit : Nat} {toks : Tokens} {e : Expr} :
    parseTokens stop limit toks = .ok e ↔
      Parser.expression stop limit limit toks = .ok (e, []) := by
  unfold parseTokens
  rw [bind_eq_ok]
  constructor
  · rintro ⟨⟨a, rest⟩, ha, h⟩
    cases rest with
    | nil =>
      obtain rfl := Except.ok.inj h
      exact ha
    | cons x rest => cases h
  · exact fun h => ⟨_, h, rfl⟩

@[simp] theorem parsePath_trim (limits : EvalLimits) (path : String) :
    parsePath limits (Text.trim path) = parsePath limits path := by
  unfold parsePath
  rw [Text.trim_trim]

/-! ## Identifiers -/

theorem isIdentifier_ofList {cs : List Char} :
    isIdentifier (String.ofList cs) = true ↔
      ∃ c rest, cs = c :: rest ∧ IsNameStart c ∧ ∀ x ∈ cs, Lexer.isNameChar x = true := by
  unfold isIdentifier
  rw [String.toList_ofList]
  cases cs with
  | nil => simp
  | cons c rest =>
    simp only [Bool.and_eq_true, Bool.or_eq_true, decide_eq_true_eq, List.all_eq_true,
      List.mem_cons, forall_eq_or_imp]
    constructor
    · rintro ⟨hc, hrest⟩
      have hc' : IsNameStart c := hc
      refine ⟨c, rest, rfl, hc', hc'.isNameChar, fun x hx => ?_⟩
      simpa [Lexer.isNameChar] using hrest x hx
    · rintro ⟨c', rest', he, hc, -, hrest⟩
      obtain ⟨rfl, rfl⟩ := List.cons.inj he
      refine ⟨hc, fun x hx => ?_⟩
      simpa [Lexer.isNameChar] using hrest x hx

/-! ## Paths from bindings -/

/-- A path whose root is a name starts with that name, and the name ends where the root does. It
ends at a point or at a bracket, which no name goes on with. -/
theorem exists_name {path : String} (h : isIdentifier (Page.View.pathRoot path) = true) :
    ∃ c cs, path.toList = c :: cs ∧ IsNameStart c ∧
      String.ofList ((c :: cs).takeWhile Lexer.isNameChar) = Page.View.pathRoot path := by
  obtain ⟨c, root, hroot, hc, hall⟩ := isIdentifier_ofList.1 h
  have hsplit := List.takeWhile_append_dropWhile (p := fun c => c ≠ '.' && c ≠ '[')
    (l := path.toList)
  rw [hroot] at hsplit hall
  refine ⟨c, root ++ path.toList.dropWhile (fun c => c ≠ '.' && c ≠ '['), hsplit.symm, hc, ?_⟩
  rw [Page.View.pathRoot, hroot]
  congr 1
  rw [show c :: (root ++ path.toList.dropWhile fun c => c ≠ '.' && c ≠ '[') =
    (c :: root) ++ path.toList.dropWhile (fun c => c ≠ '.' && c ≠ '[') from rfl,
    List.takeWhile_append_of_pos hall]
  cases hrest : path.toList.dropWhile (fun c => c ≠ '.' && c ≠ '[') with
  | nil => simp
  | cons d rest =>
    have hd := List.head_dropWhile_not (fun c => c ≠ '.' && c ≠ '[') (l := path.toList)
      (by rw [hrest]; simp)
    simp only [hrest, List.head_cons, Bool.and_eq_false_iff, decide_eq_false_iff_not, not_not] at hd
    have hstop : Lexer.isNameChar d = false := by
      rcases hd with rfl | rfl
      · decide
      · decide
    simp [hstop]

theorem parsePath_of_name {limits : EvalLimits} {path : String} {c : Char} {cs : List Char}
    (hpath : (Text.trim path).toList = c :: cs) (hc : IsNameStart c) :
    parsePath limits path = parse limits ("$vars." ++ Text.trim path) := by
  have hdollar : ¬c = '$' := by
    rintro rfl
    rcases hc with h | h
    · revert h; decide
    · revert h; decide
  have hstart : ∀ start : String, start.toList.head? = some '$' →
      Text.startsWith start (Text.trim path) = false := by
    intro start hs
    unfold Text.startsWith
    rw [hpath]
    cases hl : start.toList with
    | nil => simp [hl] at hs
    | cons d ds =>
      obtain rfl : d = '$' := by simpa [hl] using hs
      have hne : ('$' == c) = false := by simpa using Ne.symm hdollar
      rw [List.isPrefixOf, hne, Bool.false_and]
  unfold parsePath Text.after?
  simp [hstart "$vars." rfl, hstart "$resident" rfl]

theorem trim_head_not_blank {s : String} {c : Char} {cs : List Char}
    (h : (Text.trim s).toList = c :: cs) : isBlank c = false := by
  rw [Text.trim, String.toList_ofList] at h
  exact Text.head_stripWhere h

/-- What holds of the root of a path, read for itself and below the variables, holds of the two
readings of the path. -/
theorem below_of_parse {R : Expr → Expr → Prop} (hR : Parser.LeftClosed R)
    {limits limits' : EvalLimits}
    (h : limits.Le limits') {path : String}
    (hroot : isIdentifier (Page.View.pathRoot (Text.trim path)) = true)
    (hprimary : ∀ stop stop' p q, Parser.Follows (Below (Page.View.pathRoot (Text.trim path))) R
      (Parser.primary stop p) (Parser.primary stop' q))
    {e e' : Expr} (hp : parse limits (Text.trim path) = .ok e)
    (hp' : parsePath limits' path = .ok e') : R e e' := by
  obtain ⟨c, cs, hcs, hc, hname⟩ := exists_name hroot
  rw [parsePath_of_name hcs hc] at hp'
  obtain ⟨-, toks, htoks, hp⟩ := parse_eq_ok.1 hp
  obtain ⟨-, toks', htoks', hp'⟩ := parse_eq_ok.1 hp'
  obtain ⟨rest, rfl⟩ := tokenize_name (trim_head_not_blank hcs) hc (hcs ▸ htoks)
  obtain ⟨rest', hvars, hsame⟩ := tokenize_vars htoks
  obtain rfl := Except.ok.inj ((String.toList_append ▸ htoks').symm.trans hvars)
  obtain ⟨o, rest'', rfl, hrest⟩ := Alike.cons_left hsame
  rw [hname] at hp hp'
  rw [parseTokens_eq_ok] at hp hp'
  obtain ⟨b, rest₁, hb, hab, hnil⟩ := Parser.expression_below
    (Page.View.pathRoot (Text.trim path)) hR _ ("$vars." ++ Text.trim path).utf8ByteSize _
    limits'.maxNesting (hprimary _ _) h.nesting _ _ ⟨hrest⟩ _ _ hp
  obtain ⟨rfl, -⟩ := Prod.mk.inj (Except.ok.inj (hb.symm.trans hp'))
  exact hab

/-- The two readings of a path from a binding differ in its root only. -/
theorem rerooted_of_parse {limits limits' : EvalLimits} (h : limits.Le limits') {path : String}
    (hroot : isIdentifier (Page.View.pathRoot (Text.trim path)) = true) {e e' : Expr}
    (hp : parse limits (Text.trim path) = .ok e) (hp' : parsePath limits' path = .ok e') :
    Rerooted (Page.View.pathRoot (Text.trim path)) e e' :=
  below_of_parse (Parser.leftClosed_rerooted _) h hroot
    (fun _ _ _ _ => Parser.primary_below) hp hp'

theorem utf8ByteSize_vars (name : String) :
    ("$vars." ++ name).utf8ByteSize = name.utf8ByteSize + 6 := by
  rw [String.utf8ByteSize_append, Nat.add_comm]
  rfl

/-- A path below the variables whose root is a name can also be read for itself. -/
theorem exists_parse_of_parsePath {limits : EvalLimits} {path : String}
    (hroot : isIdentifier (Page.View.pathRoot (Text.trim path)) = true) {e' : Expr}
    (hp : parsePath limits path = .ok e') :
    ∃ e, parse limits (Text.trim path) = .ok e ∧
      Rerooted (Page.View.pathRoot (Text.trim path)) e e' := by
  obtain ⟨c, cs, hcs, hc, hname⟩ := exists_name hroot
  rw [parsePath_of_name hcs hc] at hp
  obtain ⟨hlen, toks', htoks', hp⟩ := parse_eq_ok.1 hp
  rw [String.toList_append] at htoks'
  obtain ⟨toks, htoks⟩ := exists_tokenize_of_vars htoks'
  obtain ⟨rest, rfl⟩ := tokenize_name (trim_head_not_blank hcs) hc (hcs ▸ htoks)
  obtain ⟨rest', hvars, hsame⟩ := tokenize_vars htoks
  obtain rfl := Except.ok.inj (htoks'.symm.trans hvars)
  obtain ⟨o, rest'', rfl, hrest⟩ := Alike.cons_left hsame
  rw [hname] at hp htoks
  rw [parseTokens_eq_ok] at hp
  obtain ⟨e, rest₁, he, hR, hnil⟩ := Parser.expression_above
    (Page.View.pathRoot (Text.trim path)) _ (Text.trim path).utf8ByteSize _ limits.maxNesting
    (Nat.le_refl _) _ _ ⟨hrest⟩ _ _ hp
  obtain rfl := hnil.nil_left
  refine ⟨e, parse_eq_ok.2 ⟨?_, _, htoks, parseTokens_eq_ok.2 he⟩, hR⟩
  rw [utf8ByteSize_vars] at hlen
  exact Nat.le_of_add_right_le hlen

/-!
## Words

A word by itself is a bare name, unless it is one of the four that stand for a value.
-/

/-- The value that a word stands for wherever it is read by itself. -/
def literal? (name : String) : Option Value :=
  if name = "true" then some (.bool true)
  else if name = "false" then some (.bool false)
  else if name = "null" then some .null
  else if name = "undefined" then some .undefined
  else none

/-- What a word is read as. -/
def ofWord (name : String) : Expr :=
  match literal? name with
  | some v => .literal v
  | none => .binding name

theorem ofWord_of_some {name : String} {v : Value} (h : literal? name = some v) :
    ofWord name = .literal v := by simp [ofWord, h]

theorem ofWord_of_none {name : String} (h : literal? name = none) :
    ofWord name = .binding name := by simp [ofWord, h]

namespace Parser

variable {e : Expr} {toks : Tokens} {operand : Parser}

theorem leftAssoc_of_whole (h : operand toks = .ok (e, []))
    (operator? : Token → Option (Expr → Expr → Expr)) :
    leftAssoc operand operator? toks = .ok (e, []) := bind_eq_ok.2 ⟨_, h, rfl⟩

theorem joined_of_whole (h : operand toks = .ok (e, [])) (isSeparator : Token → Bool)
    (join : List Expr → Expr) : joined operand isSeparator join toks = .ok (e, []) :=
  bind_eq_ok.2 ⟨_, h, rfl⟩

/-- An operand that is all there is. -/
theorem disjunction_of_whole (h : operand toks = .ok (e, [])) :
    disjunction operand toks = .ok (e, []) := by
  refine joined_of_whole (joined_of_whole ?_ _ _) _ _
  exact leftAssoc_of_whole (leftAssoc_of_whole
    (leftAssoc_of_whole (leftAssoc_of_whole h _) _) _) _

theorem unary_var (stop limit room : Nat) (o o' o'' : Nat) (name : String) :
    unary stop limit room [(o, .root .vars), (o', .dot), (o'', .ident name)] =
      .ok (var name, []) := by
  cases room with
  | zero => rfl
  | succ room => rfl

/-- A word that no parenthesis follows. -/
theorem word_eq_of_no_call {toks : Tokens} (h : ∀ o rest, toks ≠ (o, .lparen) :: rest)
    (name : String) : word name toks = .ok (ofWord name, toks) := by
  unfold word ofWord literal?
  split_ifs
  · rfl
  · rfl
  · rfl
  · rfl
  · split
    · exact absurd rfl (h _ _)
    · rfl

/-- A word is read as the same, whatever follows it. -/
theorem eq_of_word {name : String} {toks rest : Tokens} {e : Expr}
    (h : word name toks = .ok (e, rest)) : e = ofWord name ∧ rest = toks := by
  by_cases hcall : ∃ o rest, toks = (o, .lparen) :: rest
  · obtain ⟨o, rest', rfl⟩ := hcall
    unfold word at h
    unfold ofWord literal?
    split_ifs at h ⊢ <;> cases h <;> exact ⟨rfl, rfl⟩
  · push Not at hcall
    rw [word_eq_of_no_call hcall] at h
    simp_all

theorem unary_word (stop limit room o : Nat) (name : String) :
    unary stop limit room [(o, .ident name)] = .ok (ofWord name, []) := by
  have hword : word name [] = _ := word_eq_of_no_call (by simp) name
  cases room with
  | zero => exact bind_eq_ok.2 ⟨_, hword, rfl⟩
  | succ room => exact bind_eq_ok.2 ⟨_, hword, rfl⟩

end Parser

/-! ## Names as paths -/

/-- A name has no blanks around it, and starts as a name does. -/
theorem trim_name {name : String} (hname : isIdentifier name = true) :
    Text.trim name = name ∧ ∃ c cs, name = String.ofList (c :: cs) ∧ IsNameStart c ∧
      ∀ x ∈ c :: cs, Lexer.isNameChar x = true := by
  obtain ⟨cs, rfl⟩ : ∃ cs, name = String.ofList cs := ⟨name.toList, String.ofList_toList.symm⟩
  obtain ⟨c, rest, rfl, hc, hall⟩ := isIdentifier_ofList.1 hname
  refine ⟨?_, c, rest, rfl, hc, hall⟩
  rw [Text.trim, String.toList_ofList,
    Text.stripWhere_of_forall fun x hx => not_isBlank_of_isNameChar (hall x hx)]

theorem parsePath_eq_of_name {limits : EvalLimits} {name : String}
    (hname : isIdentifier name = true) :
    parsePath limits name = parse limits ("$vars." ++ name) := by
  obtain ⟨htrim, c, cs, rfl, hc, -⟩ := trim_name hname
  have hlist : (Text.trim (String.ofList (c :: cs))).toList = c :: cs := by
    rw [htrim, String.toList_ofList]
  rw [parsePath_of_name hlist hc, htrim]

/-- The name of a variable is a path to it, within limits that leave room for it. -/
theorem parsePath_name {limits : EvalLimits} {name : String} (hname : isIdentifier name = true)
    (hlength : name.utf8ByteSize + 6 ≤ limits.maxExpressionLength)
    (hnesting : 0 < limits.maxNesting) : parsePath limits name = .ok (var name) := by
  rw [parsePath_eq_of_name hname]
  obtain ⟨-, c, cs, rfl, hc, hall⟩ := trim_name hname
  obtain ⟨toks', hvars, hsame⟩ := tokenize_vars (tokenize_of_name hc hall)
  obtain ⟨⟨o, t⟩, rfl, ht⟩ := List.map_eq_singleton_iff.1 hsame.symm
  rw [show t = .ident (String.ofList (c :: cs)) from ht] at hvars
  have htoks : tokenize ("$vars." ++ String.ofList (c :: cs)).toList =
      .ok [(0, .root .vars), (5, .dot), (o, .ident (String.ofList (c :: cs)))] := by
    rw [String.toList_append, String.toList_ofList (l := c :: cs)]
    exact hvars
  refine parse_eq_ok.2 ⟨utf8ByteSize_vars _ ▸ hlength, _, htoks, parseTokens_eq_ok.2 ?_⟩
  obtain ⟨room, hroom⟩ := Nat.exists_eq_succ_of_ne_zero (Nat.ne_of_gt hnesting)
  rw [hroom]
  exact Parser.disjunction_of_whole (Parser.unary_var _ _ _ _ _ _ _)

theorem size_of_parsePath_name {limits : EvalLimits} {name : String} {e : Expr}
    (hname : isIdentifier name = true) (h : parsePath limits name = .ok e) :
    name.utf8ByteSize + 6 ≤ limits.maxExpressionLength := by
  rw [parsePath_eq_of_name hname] at h
  exact utf8ByteSize_vars name ▸ (parse_eq_ok.1 h).1

/-- A name that is all there is. -/
theorem parse_name {limits : EvalLimits} {name : String} (hname : isIdentifier name = true)
    (hlength : name.utf8ByteSize ≤ limits.maxExpressionLength) (hnesting : 0 < limits.maxNesting) :
    parse limits name = .ok (ofWord name) := by
  obtain ⟨-, c, cs, rfl, hc, hall⟩ := trim_name hname
  have htoks : tokenize (String.ofList (c :: cs)).toList =
      .ok [(0, .ident (String.ofList (c :: cs)))] := by
    rw [String.toList_ofList]
    exact tokenize_of_name hc hall
  refine parse_eq_ok.2 ⟨hlength, _, htoks, parseTokens_eq_ok.2 ?_⟩
  obtain ⟨room, hroom⟩ := Nat.exists_eq_succ_of_ne_zero (Nat.ne_of_gt hnesting)
  rw [hroom]
  exact Parser.disjunction_of_whole (Parser.unary_word _ _ _ _ _)

/-! ## What a path is rooted at -/

open Archipelago.Expr.Parser (Below Follows LeftClosed)

/-- The same outcome in every scope, as long as these bindings are in force. -/
def SameUnder (l : Locals) (a b : Expr) : Prop := ∀ scope, a.eval scope l = b.eval scope l

theorem leftClosed_sameUnder (l : Locals) : LeftClosed (SameUnder l) where
  member _ h scope := by simp only [eval, h scope]
  index _ h scope := by simp only [eval, h scope]
  length h scope := by simp only [eval, h scope]
  includes _ h scope := by simp only [eval, h scope]
  text _ h scope := by simp only [eval, h scope]
  arith _ _ h scope := by simp only [eval, h scope]
  relation _ _ h scope := by simp only [eval, h scope]
  all _ h scope := by simp only [eval, evalAll, h scope]
  any _ h scope := by simp only [eval, evalAny, h scope]

/-- A word that is bound to what it stands for, or that stands for nothing by itself. -/
def RootedIn (l : Locals) (root : String) : Prop :=
  ∀ u v, l.get? root = some u → literal? root = some v → u = v

variable {l : Locals} {root : String}

/-- A bound word gives what it is bound to, read as a variable and read for itself. -/
theorem RootedIn.sameUnder_ofWord (h : RootedIn l root) (hbound : (l.get? root).isSome = true) :
    SameUnder l (ofWord root) (var root) := by
  intro scope
  obtain ⟨u, hu⟩ := Option.isSome_iff_exists.1 hbound
  cases hlit : literal? root with
  | none => simp only [ofWord_of_none hlit, eval, hu, Option.some_or]
  | some v =>
    obtain rfl := h u v hu hlit
    simp only [ofWord_of_some hlit, eval, hu, Option.some_or]

theorem RootedIn.primary_below (h : RootedIn l root) (hbound : (l.get? root).isSome = true)
    {stop stop' : Nat} {p q : Parser} :
    Follows (Below root) (SameUnder l) (Parser.primary stop p) (Parser.primary stop' q) := by
  rintro _ _ ⟨hrest⟩ e rest hp
  rename_i o o₁ o₂ o₃ toks toks'
  obtain ⟨rfl, rfl⟩ := Parser.eq_of_word (show Parser.word root toks = .ok (e, rest) from hp)
  exact ⟨var root, toks', rfl, h.sameUnder_ofWord hbound, hrest⟩

end Expr

open Compile (isIdentifier)
open Archipelago.Expr (RootedIn literal?)

namespace Page.View

/-- A path from a bare name has the same outcome where it is shown as it has below the variables,
as which it was checked. -/
theorem evalPath_of_rootedIn {v : View}
    (hnames : ∀ name, (v.locals.get? name).isSome = true → isIdentifier name = true)
    {path : String} (hroot : RootedIn v.locals (pathRoot (Text.trim path))) {e : Expr}
    (he : Expr.parsePath v.limits path = .ok e) : v.evalPath path = e.eval v.scope v.locals := by
  unfold evalPath pathExpr
  dsimp only
  by_cases hbound : (v.locals.get? (pathRoot (Text.trim path))).isSome = true
  · have hname := hnames _ hbound
    obtain ⟨a, ha, -⟩ := Expr.exists_parse_of_parsePath hname he
    have hsame := Expr.below_of_parse (Expr.leftClosed_sameUnder v.locals) (.refl _) hname
      (fun _ _ _ _ => hroot.primary_below hbound) ha he
    rw [if_pos hbound, ha]
    exact hsame v.scope
  · rw [if_neg hbound, Expr.parsePath_trim, he]
    rfl

theorem pathRoot_of_name {name : String} (hname : isIdentifier name = true) :
    pathRoot name = name := by
  obtain ⟨-, c, cs, rfl, -, hall⟩ := Expr.trim_name hname
  rw [pathRoot, String.toList_ofList, List.takeWhile_eq_self_iff.2]
  intro x hx
  have hx := hall x hx
  suffices x ≠ '.' ∧ x ≠ '[' by simpa
  constructor <;> (rintro rfl; revert hx; decide)

/-- Among these bindings, which have names that loops can bind, all paths from a root have the same
outcome as they have below the variables, within any limits and in every scope, if and only if the
root does not stand for a value that it is not bound to. -/
theorem evalPath_iff_rootedIn {l : Locals}
    (hnames : ∀ name, (l.get? name).isSome = true → isIdentifier name = true) (root : String) :
    (∀ limits scope path e, pathRoot (Text.trim path) = root → Expr.parsePath limits path = .ok e →
      evalPath ⟨limits, scope, l⟩ path = e.eval scope l) ↔ RootedIn l root := by
  constructor
  · intro h u v hu hlit
    have hbound : (l.get? root).isSome = true := by rw [hu]; rfl
    have hname := hnames root hbound
    have htrim := (Expr.trim_name hname).1
    let limits : EvalLimits := ⟨root.utf8ByteSize + 6, 1⟩
    have hword : Expr.parse limits root = .ok (.literal v) :=
      Expr.ofWord_of_some hlit ▸ Expr.parse_name hname (Nat.le_add_right _ _) Nat.one_pos
    have hpath := pathRoot_of_name hname
    have hsame := h limits ⟨fun _ => none, .undefined⟩ root (.var root) (by rw [htrim, hpath])
      (Expr.parsePath_name hname le_rfl Nat.one_pos)
    simp only [evalPath, pathExpr, htrim, hpath, hbound, hword, if_true] at hsame
    simpa [Expr.eval, hu, bind, Except.bind] using hsame.symm
  · rintro hroot limits scope path e rfl he
    exact evalPath_of_rootedIn (v := ⟨limits, scope, l⟩) hnames hroot he

/-- A loop over goods. -/
theorem evalPath_goods :
    let l : Locals := [[("item", .object [("price", .string "3")]), ("index", .null)]]
    let scope : Scope := ⟨Dict.get? [("item", .string "shelf")], .undefined⟩
    evalPath ⟨{}, scope, l⟩ " item.price" = (Expr.member (.var "item") "price").eval scope l := by
  intro l scope
  have hnames : ∀ name, (l.get? name).isSome = true → isIdentifier name = true := by
    intro name h
    by_cases hitem : "item" = name
    · subst hitem; decide
    · by_cases hindex : "index" = name
      · subst hindex; decide
      · simp [l, Locals.get?, Dict.get?, hitem, hindex] at h
  refine (evalPath_iff_rootedIn hnames "item").2 (fun u v _ hv => ?_)
    {} scope " item.price" _ ?_ rfl
  · simp [literal?] at hv
  · decide

/-- A loop may call its item by a word that stands for a value: the path to the item is then read as
the value. -/
theorem evalPath_ne_of_word :
    let l : Locals := [[("true", .string "yes"), ("index", .null)]]
    let scope : Scope := ⟨fun _ => none, .undefined⟩
    (∀ name, (l.get? name).isSome = true → isIdentifier name = true) ∧
      Expr.parsePath {} "true" = .ok (.var "true") ∧
      (Expr.var "true").eval scope l = .ok (.string "yes") ∧
      evalPath ⟨{}, scope, l⟩ "true" = .ok (.bool true) := by
  intro l scope
  refine ⟨fun name h => ?_, rfl, rfl, rfl⟩
  by_cases htrue : "true" = name
  · subst htrue; decide
  · by_cases hindex : "index" = name
    · subst hindex; decide
    · simp [l, Locals.get?, Dict.get?, htrue, hindex] at h

end Page.View

end Archipelago
