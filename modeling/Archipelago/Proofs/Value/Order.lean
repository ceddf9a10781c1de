import Archipelago.Proofs.Basics
import Archipelago.Proofs.Decimal.Parts
import Archipelago.Value.Order

/-!
# The order of values

Numbers and texts of numbers compare as numbers, and two texts compare as texts if one of them holds
no number. Either order is one for itself. Values that are compared in both ways are in an order
only if the two agree on them, and no number, which counts as equal to all, is in an order only with
equal numbers.
-/

namespace Archipelago

/-!
## The order of numbers

All numbers but the one that is none stand in one line. Where a number stands is told by its parts,
so that of two numbers the one is less if it stands in front of the other.
-/

namespace Decimal

open Float.Model (UnpackedFloat)
open Float.Model.UnpackedFloat

/-- Where a number stands: on which side of zero, and how far from it by its exponent and
mantissa. -/
def placeOf : UnpackedFloat → Int ×ₗ Int ×ₗ Int
  | .infinity .negative => toLex (-2, toLex (0, 0))
  | .finite .negative m e _ => toLex (-1, toLex (-e, -m))
  | .zero _ | .notANumber => toLex (0, toLex (0, 0))
  | .finite .positive m e _ => toLex (1, toLex (e, m))
  | .infinity .positive => toLex (2, toLex (0, 0))

/-- Where a number stands among all numbers. -/
def place (x : Float) : Int ×ₗ Int ×ₗ Int := placeOf (parts x)

theorem compare_toLex (a b c a' b' c' : Int) :
    compare (toLex (a, toLex (b, c))) (toLex (a', toLex (b', c'))) =
      (compare a a').then ((compare b b').then (compare c c')) := rfl

theorem compare_natCast (m n : Nat) : compare (m : Int) n = compare m n := by
  simp only [Int.compare_eq_ite_lt, Nat.compare_eq_ite_lt, Int.ofNat_lt]

theorem compare_neg (a b : Int) : compare (-a) (-b) = (compare a b).swap := by
  rw [Int.compare_swap]
  simp only [Int.compare_eq_ite_lt, neg_lt_neg_iff]

/-- Parts compare as their places do. -/
theorem compare_eq {u v : UnpackedFloat} (hu : u ≠ .notANumber) (hv : v ≠ .notANumber) :
    u.compare v = some (compare (placeOf u) (placeOf v)) := by
  cases u with
  | notANumber => exact absurd rfl hu
  | infinity s =>
    cases v with
    | notANumber => exact absurd rfl hv
    | infinity s' => cases s <;> cases s' <;> rfl
    | zero s' => cases s <;> rfl
    | finite s' m' e' hm' => cases s <;> cases s' <;> rfl
  | zero s =>
    cases v with
    | notANumber => exact absurd rfl hv
    | infinity s' => cases s' <;> rfl
    | zero s' => rfl
    | finite s' m' e' hm' => cases s' <;> rfl
  | finite s m e hm =>
    cases v with
    | notANumber => exact absurd rfl hv
    | infinity s' => cases s <;> cases s' <;> rfl
    | zero s' => cases s <;> rfl
    | finite s' m' e' hm' =>
      cases s with
      | positive =>
        cases s' with
        | negative => rfl
        | positive =>
          show some ((compare e e').then (compare m m')) = _
          rw [placeOf, placeOf, compare_toLex, compare_natCast]
          rfl
      | negative =>
        cases s' with
        | positive => rfl
        | negative =>
          show some ((compare e e').then (compare m m')).swap = _
          rw [placeOf, placeOf, compare_toLex, Ordering.swap_then]
          simp only [compare_neg, compare_natCast]
          rfl

theorem parts_eq_iff {x : Float} : parts x = .notANumber ↔ x = Float.nan := by
  rw [← decide_eq_true_iff (p := x = Float.nan), ← Float.isNaN_eq_decide_eq_nan]
  exact isNaN_iff.symm

/-- A number is less than another one if it stands in front of it. -/
theorem lt_iff_place {x y : Float} : x < y ↔ x ≠ Float.nan ∧ y ≠ Float.nan ∧ place x < place y := by
  have hlt : x < y ↔ ((parts x).compare (parts y) == some .lt) = true := by
    show Float.lt x y = true ↔ _
    rw [Float.lt, decide_eq_true_iff]
    rfl
  rw [hlt, beq_iff_eq, Ne, Ne, ← parts_eq_iff, ← parts_eq_iff]
  by_cases hx : parts x = .notANumber
  · rw [hx]
    exact ⟨nofun, fun h => absurd rfl h.1⟩
  by_cases hy : parts y = .notANumber
  · have hnone : (parts x).compare (parts y) = none := by
      rw [hy]
      cases parts x <;> rfl
    rw [hnone]
    exact ⟨nofun, fun h => absurd hy h.2.1⟩
  · rw [compare_eq hx hy, Option.some.injEq, compare_lt_iff_lt]
    exact ⟨fun h => ⟨hx, hy, h⟩, fun h => h.2.2⟩

end Decimal

namespace Value

open Decimal (place lt_iff_place)

/-! ## Numbers -/

theorem orderNumbers_eq_lt {x y : Float} : orderNumbers x y = .lt ↔ x < y := by
  unfold orderNumbers
  split
  · rename_i h
    exact iff_of_true rfl h
  · rename_i h
    split <;> exact iff_of_false nofun h

theorem orderNumbers_eq_gt {x y : Float} : orderNumbers x y = .gt ↔ y < x := by
  unfold orderNumbers
  split
  · rename_i h
    refine iff_of_false nofun fun h' => ?_
    exact lt_asymm (lt_iff_place.1 h).2.2 (lt_iff_place.1 h').2.2
  · split
    · rename_i h
      exact iff_of_true rfl h
    · rename_i h
      exact iff_of_false nofun h

theorem orderNumbers_swap (x y : Float) : (orderNumbers x y).swap = orderNumbers y x := by
  cases h : orderNumbers x y with
  | lt => exact (orderNumbers_eq_gt.2 (orderNumbers_eq_lt.1 h)).symm
  | gt => exact (orderNumbers_eq_lt.2 (orderNumbers_eq_gt.1 h)).symm
  | eq =>
    cases h' : orderNumbers y x with
    | lt => rw [orderNumbers_eq_gt.2 (orderNumbers_eq_lt.1 h')] at h; cases h
    | gt => rw [orderNumbers_eq_lt.2 (orderNumbers_eq_gt.1 h')] at h; cases h
    | eq => rfl

theorem not_lt_trans {x y z : Float} (hy : y ≠ Float.nan) (h : ¬y < x) (h' : ¬z < y) : ¬z < x := by
  intro hlt
  obtain ⟨hz, hx, hplace⟩ := lt_iff_place.1 hlt
  have hxy : place x ≤ place y := not_lt.1 fun hyx => h (lt_iff_place.2 ⟨hy, hx, hyx⟩)
  have hyz : place y ≤ place z := not_lt.1 fun hzy => h' (lt_iff_place.2 ⟨hz, hy, hzy⟩)
  exact absurd (hxy.trans hyz) (not_le.2 hplace)

/-- A text is never read as no number. -/
theorem ne_nan_of_parseNumber {s : String} {x : Float} (h : parseNumber s = some x) :
    x ≠ Float.nan := by
  rintro rfl
  have hfinite : Decimal.isFinite Float.nan = true := (Option.filter_eq_some_iff.1 h).2
  exact absurd hfinite (by decide +kernel)

/-! ## Values -/

theorem order_of_toNumber? {a b : Value} {x y : Float} (ha : a.toNumber? = some x)
    (hb : b.toNumber? = some y) : a.order b = .ok (orderNumbers x y) := by
  unfold order
  split
  · rename_i s t
    simp only [toNumber?] at ha hb
    rw [ha, hb]
  · simp only [asOperand, ha, hb]
    rfl

theorem order_of_text {s t : String} (h : parseNumber s = none ∨ parseNumber t = none) :
    (string s).order (string t) = .ok (orderText s t) := by
  unfold order
  dsimp only
  obtain h | h := h
  · rw [h]
  · rw [h]
    cases parseNumber s with
    | none => rfl
    | some x => rfl

theorem order_of_not_texts {a b : Value} (h : ∀ s t, a = string s → b = string t → False)
    (hnumber : a.toNumber? = none ∨ b.toNumber? = none) :
    ∃ e, a.order b = .error e ∧ e.kind = .typeMismatch := by
  unfold order
  split
  · rename_i s t
    exact (h s t rfl rfl).elim
  · unfold asOperand
    obtain hnone | hnone := hnumber
    · rw [hnone]
      exact ⟨_, rfl, rfl⟩
    · rw [hnone]
      cases a.toNumber? with
      | none => exact ⟨_, rfl, rfl⟩
      | some x => exact ⟨_, rfl, rfl⟩

/-- Two values compare as numbers, as texts, or not at all. -/
theorem order_cases (a b : Value) :
    (∃ x y, a.toNumber? = some x ∧ b.toNumber? = some y ∧ a.order b = .ok (orderNumbers x y)) ∨
    (∃ s t, a = string s ∧ b = string t ∧ (parseNumber s = none ∨ parseNumber t = none) ∧
      a.order b = .ok (orderText s t)) ∨
    ((∀ s t, a = string s → b = string t → False) ∧ (a.toNumber? = none ∨ b.toNumber? = none) ∧
      ∃ e, a.order b = .error e ∧ e.kind = .typeMismatch) := by
  by_cases hnumbers : ∃ x y, a.toNumber? = some x ∧ b.toNumber? = some y
  · obtain ⟨x, y, hx, hy⟩ := hnumbers
    exact .inl ⟨x, y, hx, hy, order_of_toNumber? hx hy⟩
  have hnumber : a.toNumber? = none ∨ b.toNumber? = none := by
    cases hx : a.toNumber? with
    | none => exact .inl rfl
    | some x =>
      cases hy : b.toNumber? with
      | none => exact .inr rfl
      | some y => exact absurd ⟨x, y, hx, hy⟩ hnumbers
  by_cases htexts : ∃ s t, a = string s ∧ b = string t
  · obtain ⟨s, t, rfl, rfl⟩ := htexts
    exact .inr (.inl ⟨s, t, rfl, rfl, hnumber, order_of_text hnumber⟩)
  · have hnot : ∀ s t, a = string s → b = string t → False := fun s t hs ht => htexts ⟨s, t, hs, ht⟩
    exact .inr (.inr ⟨hnot, hnumber, order_of_not_texts hnot hnumber⟩)

theorem kind_of_order {a b : Value} {e : EvalError} (h : a.order b = .error e) :
    e.kind = .typeMismatch := by
  obtain ⟨x, y, -, -, hok⟩ | ⟨s, t, -, -, -, hok⟩ | ⟨-, -, e', herror, hkind⟩ := order_cases a b
  · rw [hok] at h
    cases h
  · rw [hok] at h
    cases h
  · rw [herror] at h
    exact Except.error.inj h ▸ hkind

/-- The other way round two values compare the other way round. -/
theorem order_swap {a b : Value} {o : Ordering} (h : a.order b = .ok o) :
    b.order a = .ok o.swap := by
  obtain ⟨x, y, hx, hy, hok⟩ | ⟨s, t, rfl, rfl, hword, hok⟩ | ⟨-, -, e, herror, -⟩ :=
    order_cases a b
  · obtain rfl := Except.ok.inj (hok.symm.trans h)
    rw [order_of_toNumber? hy hx, orderNumbers_swap]
  · obtain rfl := Except.ok.inj (hok.symm.trans h)
    rw [order_of_text hword.symm]
    exact congrArg Except.ok (cmp_swap s t).symm
  · rw [herror] at h
    cases h

/-! ## Values that can be compared -/

/-- Two values that can be compared. -/
def Comparable (a b : Value) : Prop := ∃ o, a.order b = .ok o

/-- Not greater. -/
def AtMost (a b : Value) : Prop := ∃ o, a.order b = .ok o ∧ o ≠ .gt

/-- Numbers and texts of numbers compare among each other, and so do texts. -/
theorem comparable_iff {a b : Value} : a.Comparable b ↔
    (∃ x y, a.toNumber? = some x ∧ b.toNumber? = some y) ∨ ∃ s t, a = string s ∧ b = string t := by
  unfold Comparable
  constructor
  · rintro ⟨o, ho⟩
    obtain ⟨x, y, hx, hy, -⟩ | ⟨s, t, hs, ht, -, -⟩ | ⟨-, -, e, herror, -⟩ := order_cases a b
    · exact .inl ⟨x, y, hx, hy⟩
    · exact .inr ⟨s, t, hs, ht⟩
    · rw [herror] at ho
      cases ho
  · intro h
    obtain ⟨x, y, -, -, hok⟩ | ⟨s, t, -, -, -, hok⟩ | ⟨htexts, hnumber, -⟩ := order_cases a b
    · exact ⟨_, hok⟩
    · exact ⟨_, hok⟩
    · obtain ⟨x, y, hx, hy⟩ | ⟨s, t, hs, ht⟩ := h
      · simp [hx, hy] at hnumber
      · exact (htexts s t hs ht).elim

theorem Comparable.symm {a b : Value} (h : a.Comparable b) : b.Comparable a := by
  obtain ⟨o, ho⟩ := h
  exact ⟨o.swap, order_swap ho⟩

theorem atMost_of_toNumber? {a b : Value} {x y : Float} (ha : a.toNumber? = some x)
    (hb : b.toNumber? = some y) : a.AtMost b ↔ ¬y < x := by
  simp only [AtMost, order_of_toNumber? ha hb, Except.ok.injEq, exists_eq_left', Ne,
    orderNumbers_eq_gt]

theorem atMost_of_text {s t : String} (h : parseNumber s = none ∨ parseNumber t = none) :
    (string s).AtMost (string t) ↔ s ≤ t := by
  simp only [AtMost, order_of_text h, Except.ok.injEq, exists_eq_left', Ne]
  exact (not_congr (cmp_eq_gt_iff s t)).trans not_lt

/-! ## Values that are in an order -/

/-- Values on which the two orders agree: where no number is among them all are equal, and where a
text that holds no number stands between two that hold one, these stand in front of each other as
numbers too. -/
structure Aligned (S : Set Value) : Prop where
  numbers : number Float.nan ∈ S → ∀ a ∈ S, ∀ b ∈ S, a.order b = .ok .eq
  texts : ∀ s word t x y, string s ∈ S → string word ∈ S → string t ∈ S → parseNumber s = some x →
    parseNumber word = none → parseNumber t = some y → s < word → word < t → x < y

/-- A word and a numeral are different texts. -/
theorem lt_of_le_of_parseNumber {s t : String} (hle : s ≤ t) (hne : parseNumber s ≠ parseNumber t) :
    s < t :=
  lt_of_le_of_ne hle fun heq => hne (congrArg parseNumber heq)

/-- Three values that can be compared are all numbers, or all of them are texts. -/
theorem exists_of_comparable {a b c : Value} (hab : a.Comparable b) (hbc : b.Comparable c)
    (hac : a.Comparable c) :
    (∃ x y z, a.toNumber? = some x ∧ b.toNumber? = some y ∧ c.toNumber? = some z) ∨
      ∃ s t u, a = string s ∧ b = string t ∧ c = string u := by
  rw [comparable_iff] at hab hbc hac
  obtain ⟨x, y, hx, hy⟩ | ⟨s, t, rfl, rfl⟩ := hab
  · obtain ⟨-, z, -, hz⟩ | ⟨t, u, rfl, rfl⟩ := hbc
    · exact .inl ⟨x, y, z, hx, hy, hz⟩
    · obtain ⟨-, z, -, hz⟩ | ⟨s, -, rfl, -⟩ := hac
      · exact .inl ⟨x, y, z, hx, hy, hz⟩
      · exact .inr ⟨s, t, u, rfl, rfl, rfl⟩
  · obtain ⟨y, z, hy, hz⟩ | ⟨-, u, -, rfl⟩ := hbc
    · obtain ⟨x, -, hx, -⟩ | ⟨-, u, -, rfl⟩ := hac
      · exact .inl ⟨x, y, z, hx, hy, hz⟩
      · exact .inr ⟨s, t, u, rfl, rfl, rfl⟩
    · exact .inr ⟨s, t, u, rfl, rfl, rfl⟩

namespace Aligned

variable {S : Set Value} (h : Aligned S)
include h

theorem atMost_of_numbers {a b c : Value} (ha : a ∈ S) (hb : b ∈ S) (hc : c ∈ S) {x y z : Float}
    (hx : a.toNumber? = some x) (hy : b.toNumber? = some y) (hz : c.toNumber? = some z)
    (hab : a.AtMost b) (hbc : b.AtMost c) : a.AtMost c := by
  by_cases hnan : y = Float.nan
  · subst hnan
    have hnumber : b = number Float.nan := by
      cases b with
      | number w => exact congrArg number (Option.some.inj hy)
      | string s => exact absurd rfl (ne_nan_of_parseNumber hy)
      | _ => cases hy
    exact ⟨_, h.numbers (hnumber ▸ hb) a ha c hc, nofun⟩
  · rw [atMost_of_toNumber? hx hy] at hab
    rw [atMost_of_toNumber? hy hz] at hbc
    rw [atMost_of_toNumber? hx hz]
    exact not_lt_trans hnan hab hbc

/-- Where one of three texts holds no number, the other two may, and then it depends on where it
stands. -/
theorem atMost_of_texts {s t u : String} (hs : string s ∈ S) (ht : string t ∈ S) (hu : string u ∈ S)
    (hword : parseNumber s = none ∨ parseNumber t = none ∨ parseNumber u = none)
    (hst : (string s).AtMost (string t)) (htu : (string t).AtMost (string u)) :
    (string s).AtMost (string u) := by
  cases hx : parseNumber s with
  | none =>
    rw [atMost_of_text (.inl hx)] at hst ⊢
    by_cases hlast : parseNumber t = none ∨ parseNumber u = none
    · exact hst.trans ((atMost_of_text hlast).1 htu)
    obtain ⟨hy, hz⟩ := not_or.1 hlast
    obtain ⟨y, hy⟩ := Option.ne_none_iff_exists'.1 hy
    obtain ⟨z, hz⟩ := Option.ne_none_iff_exists'.1 hz
    by_contra hlt
    refine (atMost_of_toNumber? (a := string t) (b := string u) hy hz).1 htu ?_
    refine h.texts u s t z y hu hs ht hz hx hy (not_le.1 hlt) ?_
    exact lt_of_le_of_parseNumber hst (by simp [hx, hy])
  | some x =>
    cases hy : parseNumber t with
    | none =>
      rw [atMost_of_text (.inr hy)] at hst
      rw [atMost_of_text (.inl hy)] at htu
      cases hz : parseNumber u with
      | none => exact (atMost_of_text (.inr hz)).2 (hst.trans htu)
      | some z =>
        rw [atMost_of_toNumber? (a := string s) (b := string u) hx hz]
        have hlt : x < z := h.texts s t u x z hs ht hu hx hy hz
          (lt_of_le_of_parseNumber hst (by simp [hx, hy]))
          (lt_of_le_of_parseNumber htu (by simp [hy, hz]))
        intro hgt
        exact lt_asymm (lt_iff_place.1 hlt).2.2 (lt_iff_place.1 hgt).2.2
    | some y =>
      have hz : parseNumber u = none :=
        (hword.resolve_left (by simp [hx])).resolve_left (by simp [hy])
      rw [atMost_of_text (.inr hz)] at htu ⊢
      rw [atMost_of_toNumber? (a := string s) (b := string t) hx hy] at hst
      by_contra hlt
      refine hst (h.texts t u s y x ht hu hs hy hz hx ?_ (not_le.1 hlt))
      exact lt_of_le_of_parseNumber htu (by simp [hy, hz])

theorem atMost_trans {a b c : Value} (ha : a ∈ S) (hb : b ∈ S) (hc : c ∈ S) (hac : a.Comparable c)
    (hab : a.AtMost b) (hbc : b.AtMost c) : a.AtMost c := by
  obtain ⟨x, y, z, hx, hy, hz⟩ | ⟨s, t, u, rfl, rfl, rfl⟩ :=
    exists_of_comparable (hab.imp fun _ h => h.1) (hbc.imp fun _ h => h.1) hac
  · exact h.atMost_of_numbers ha hb hc hx hy hz hab hbc
  by_cases hword : parseNumber s = none ∨ parseNumber t = none ∨ parseNumber u = none
  · exact h.atMost_of_texts ha hb hc hword hab hbc
  · simp only [not_or, ← ne_eq, Option.ne_none_iff_exists'] at hword
    obtain ⟨⟨x, hx⟩, ⟨y, hy⟩, z, hz⟩ := hword
    exact h.atMost_of_numbers (a := string s) (b := string t) (c := string u) ha hb hc hx hy hz
      hab hbc

end Aligned

/-- Where the order is transitive the two orders agree. -/
theorem aligned_of_trans {S : Set Value} (hS : ∀ a ∈ S, ∀ b ∈ S, a.Comparable b)
    (htrans : ∀ a ∈ S, ∀ b ∈ S, ∀ c ∈ S, a.AtMost b → b.AtMost c → a.AtMost c) : Aligned S where
  numbers hnan a ha b hb := by
    -- each of them is at most no number, and no number is at most each of them
    have hnumber : ∀ c ∈ S, ∃ x, c.toNumber? = some x := by
      intro c hc
      obtain ⟨x, -, hx, -⟩ | ⟨-, t, -, ht⟩ := comparable_iff.1 (hS c hc _ hnan)
      · exact ⟨x, hx⟩
      · cases ht
    have hbetween : ∀ c ∈ S, c.AtMost (number Float.nan) ∧ (number Float.nan).AtMost c := by
      intro c hc
      obtain ⟨x, hx⟩ := hnumber c hc
      rw [atMost_of_toNumber? hx rfl, atMost_of_toNumber? rfl hx]
      exact ⟨fun hlt => (lt_iff_place.1 hlt).1 rfl, fun hlt => (lt_iff_place.1 hlt).2.1 rfl⟩
    obtain ⟨o, ho, hgt⟩ := htrans a ha _ hnan b hb (hbetween a ha).1 (hbetween b hb).2
    obtain ⟨o', ho', hgt'⟩ := htrans b hb _ hnan a ha (hbetween b hb).1 (hbetween a ha).2
    obtain rfl := Except.ok.inj ((order_swap ho).symm.trans ho')
    cases o with
    | eq => exact ho
    | lt => exact absurd rfl hgt'
    | gt => exact absurd rfl hgt
  texts s word t x y hs hword ht hx hnone hy hlt hlt' := by
    by_contra hxy
    have hts : (string t).AtMost (string s) :=
      (atMost_of_toNumber? (a := string t) (b := string s) hy hx).2 hxy
    have hsw : (string s).AtMost (string word) := (atMost_of_text (.inr hnone)).2 hlt.le
    exact not_le.2 hlt' ((atMost_of_text (.inr hnone)).1 (htrans _ ht _ hs _ hword hts hsw))

/-- The other way round values compare the other way round, and on values that can be compared the
order is a total preorder if and only if the order of numbers and that of texts agree on them. -/
theorem order_laws {S : Set Value} (hS : ∀ a ∈ S, ∀ b ∈ S, a.Comparable b) :
    (∀ (a b : Value) (o : Ordering), a.order b = .ok o → b.order a = .ok o.swap) ∧
    ((∀ a ∈ S, ∀ b ∈ S, ∀ c ∈ S, a.AtMost b → b.AtMost c → a.AtMost c) ↔ Aligned S) := by
  refine ⟨fun a b o => order_swap, aligned_of_trans hS, fun h => ?_⟩
  intro a ha b hb c hc
  exact h.atMost_trans ha hb hc (hS a ha c hc)

/-- Two numerals, and two words behind them. -/
def labels : Set Value := {string "9", string "10", string "a", string "b"}

/-- Numerals and words may stand in one list as long as no numeral is larger than a word as a text:
the order is transitive on these labels. -/
theorem order_laws_labels :
    (∀ a ∈ labels, ∀ b ∈ labels, a.Comparable b) ∧
    ∀ a ∈ labels, ∀ b ∈ labels, ∀ c ∈ labels, a.AtMost b → b.AtMost c → a.AtMost c := by
  have hcomparable : ∀ a ∈ labels, ∀ b ∈ labels, a.Comparable b := by
    have htext : ∀ a ∈ labels, ∃ s, a = string s := by
      rintro a (rfl | rfl | rfl | rfl) <;> exact ⟨_, rfl⟩
    intro a ha b hb
    obtain ⟨s, rfl⟩ := htext a ha
    obtain ⟨t, rfl⟩ := htext b hb
    exact comparable_iff.2 (.inr ⟨s, t, rfl, rfl⟩)
  refine ⟨hcomparable, (order_laws hcomparable).2.2 ⟨fun hnan => ?_, ?_⟩⟩
  · obtain h | h | h | h := hnan <;> cases h
  · intro s word t x y hs hword ht hx hnone hy hlt hlt'
    have hnumerals : (parseNumber "9").isSome ∧ (parseNumber "10").isSome := by decide +kernel
    have hwords : (parseNumber "a").isNone ∧ (parseNumber "b").isNone := by decide +kernel
    have hword' : word = "a" ∨ word = "b" := by
      obtain h | h | h | h := hword <;> obtain rfl := string.inj h
      · simp [hnone] at hnumerals
      · simp [hnone] at hnumerals
      · exact .inl rfl
      · exact .inr rfl
    have ht' : t = "9" ∨ t = "10" := by
      obtain h | h | h | h := ht <;> obtain rfl := string.inj h
      · exact .inl rfl
      · exact .inr rfl
      · simp [hy] at hwords
      · simp [hy] at hwords
    obtain rfl | rfl := hword' <;> obtain rfl | rfl := ht' <;> exact absurd hlt' (by decide)

/-- A numeral that is less than another one need not be less than the words behind that one, and no
number stands between any two numbers. -/
theorem not_order_trans :
    ((string "9").AtMost (string "10") ∧ (string "10").AtMost (string "1a") ∧
      (string "9").Comparable (string "1a") ∧ ¬(string "9").AtMost (string "1a")) ∧
    (number 2).AtMost (number Float.nan) ∧ (number Float.nan).AtMost (number 1) ∧
      (number 2).Comparable (number 1) ∧ ¬(number 2).AtMost (number 1) := by
  have hnot : ∀ {a b : Value}, a.order b = .ok .gt → a.Comparable b ∧ ¬a.AtMost b := by
    rintro a b hgt
    refine ⟨⟨_, hgt⟩, ?_⟩
    rintro ⟨o, ho, hne⟩
    exact hne (Except.ok.inj (ho.symm.trans hgt))
  have hnumerals : (string "9").order (string "10") = .ok .lt := by decide +kernel
  have hword : (string "10").order (string "1a") = .ok .lt := by decide +kernel
  have hback : (string "9").order (string "1a") = .ok .gt := by decide +kernel
  have hnan : (number 2).order (number Float.nan) = .ok .eq := by decide +kernel
  have hnan' : (number Float.nan).order (number 1) = .ok .eq := by decide +kernel
  have hless : (number 2).order (number 1) = .ok .gt := by decide +kernel
  exact ⟨⟨⟨_, hnumerals, nofun⟩, ⟨_, hword, nofun⟩, hnot hback⟩, ⟨_, hnan, nofun⟩,
    ⟨_, hnan', nofun⟩,
    hnot hless⟩

end Value

end Archipelago
