import Archipelago.Decimal.Binary
import Archipelago.Proofs.Decimal.Parts
import Mathlib.Algebra.Group.Nat.Defs

/-!
# Whole numbers

A number is whole if its parts say so, and then they are determined. Whole numbers that are made of
natural ones, and products of whole numbers, are the exact ones rounded to 53 bits.
-/

/-!
## Rounding to 53 bits

A whole number is rounded to the nearest one that has no more than 53 bits in front of its zeros. It
stays as it is if it is small, and rounding keeps the order.
-/

namespace Archipelago.Decimal

theorem roundDiv_mul_right (n d : Nat) {c : Nat} (hc : 0 < c) :
    roundDiv (n * c) (d * c) = roundDiv n d := by
  have hlt {a b : Nat} : 2 * (a * c) < b * c ↔ 2 * a < b := by
    rw [← Nat.mul_assoc]
    exact Nat.mul_lt_mul_right hc
  have hgt {a b : Nat} : b * c < 2 * (a * c) ↔ b < 2 * a := by
    rw [← Nat.mul_assoc]
    exact Nat.mul_lt_mul_right hc
  unfold roundDiv
  rw [Nat.mul_div_mul_right _ _ hc, Nat.mul_mod_mul_right]
  simp only [hlt, hgt]

theorem roundDiv_mul_self (n : Nat) {d : Nat} (hd : 0 < d) : roundDiv (n * d) d = n := by
  unfold roundDiv
  rw [Nat.mul_mod_left, Nat.mul_div_left _ hd]
  exact if_pos hd

/-- A quotient is rounded to one of its neighbours. -/
theorem roundDiv_bounds (n d : Nat) : n / d ≤ roundDiv n d ∧ roundDiv n d ≤ n / d + 1 := by
  unfold roundDiv
  dsimp only
  split
  · omega
  · split <;> omega

theorem roundDiv_mono {n n' : Nat} (h : n ≤ n') (d : Nat) : roundDiv n d ≤ roundDiv n' d := by
  by_cases hq : n / d = n' / d
  · have hrest : n % d ≤ n' % d := by
      have := Nat.div_add_mod n d
      have := Nat.div_add_mod n' d
      rw [hq] at *
      omega
    unfold roundDiv
    grind
  · have := Nat.div_le_div_right h (c := d)
    have := (roundDiv_bounds n d).2
    have := (roundDiv_bounds n' d).1
    omega

/-- The nearest one of the numbers with 53 bits, zeros behind them aside; a half goes to the even
one. -/
def toNearest (n : Nat) : Nat := roundDiv n (2 ^ (n.log2 - 52)) * 2 ^ (n.log2 - 52)

theorem log2_le_of_lt {n : Nat} (h : n < 2 ^ 53) : n.log2 ≤ 52 := by
  by_cases hn : n = 0
  · subst hn
    decide
  · have := (Nat.log2_lt hn).2 h
    omega

/-- A number that fits is left as it is. -/
theorem toNearest_of_lt {n : Nat} (h : n < 2 ^ 53) : toNearest n = n := by
  have hzero : n.log2 - 52 = 0 := by
    have := log2_le_of_lt h
    omega
  unfold toNearest
  rw [hzero, Nat.pow_zero, Nat.mul_one]
  simpa using roundDiv_mul_self n Nat.one_pos

theorem log2_mono {n n' : Nat} (h : n ≤ n') : n.log2 ≤ n'.log2 := by
  by_cases hn : n = 0
  · subst hn
    exact Nat.zero_le _
  · exact (Nat.le_log2 (by omega)).2 (Nat.le_trans (Nat.log2_self_le hn) h)

/-- What is rounded has 53 bits in front of its zeros, or the next power of two comes of it. -/
theorem roundDiv_le (n : Nat) : roundDiv n (2 ^ (n.log2 - 52)) ≤ 2 ^ 53 := by
  have hlt : n / 2 ^ (n.log2 - 52) < 2 ^ 53 := by
    rw [Nat.div_lt_iff_lt_mul (Nat.two_pow_pos _), ← Nat.pow_add]
    exact Nat.lt_of_lt_of_le Nat.lt_log2_self (Nat.pow_le_pow_right (by decide) (by omega))
  have := (roundDiv_bounds n (2 ^ (n.log2 - 52))).2
  omega

theorem le_roundDiv {n : Nat} (h : 2 ^ 52 ≤ n) : 2 ^ 52 ≤ roundDiv n (2 ^ (n.log2 - 52)) := by
  have hn : n ≠ 0 := by rintro rfl; exact absurd h (by decide)
  have hlog := (Nat.le_log2 hn).2 h
  refine Nat.le_trans ?_ (roundDiv_bounds n _).1
  rw [Nat.le_div_iff_mul_le (Nat.two_pow_pos _), ← Nat.pow_add]
  have hexp : 52 + (n.log2 - 52) = n.log2 := by omega
  rw [hexp]
  exact Nat.log2_self_le hn

/-- To round to the nearest double keeps the order. The power of two that stands between two numbers
of different lengths is not passed. -/
theorem toNearest_mono {n n' : Nat} (h : n ≤ n') : toNearest n ≤ toNearest n' := by
  unfold toNearest
  obtain heq | hlt := Nat.eq_or_lt_of_le (Nat.sub_le_sub_right (log2_mono h) 52)
  · rw [heq]
    exact Nat.mul_le_mul_right _ (roundDiv_mono h _)
  · have hlarge : 2 ^ 52 ≤ n' :=
      (Nat.le_log2 (by rintro rfl; exact absurd hlt (by simp))).1 (by omega)
    calc roundDiv n (2 ^ (n.log2 - 52)) * 2 ^ (n.log2 - 52)
        ≤ 2 ^ 53 * 2 ^ (n.log2 - 52) := Nat.mul_le_mul_right _ (roundDiv_le n)
      _ = 2 ^ 52 * 2 ^ (n.log2 - 52 + 1) := by rw [Nat.pow_succ]; omega
      _ ≤ 2 ^ 52 * 2 ^ (n'.log2 - 52) :=
          Nat.mul_le_mul_left _ (Nat.pow_le_pow_right (by decide) hlt)
      _ ≤ _ := Nat.mul_le_mul_right _ (le_roundDiv hlarge)

theorem toNearest_pos {n : Nat} (h : 0 < n) : 0 < toNearest n := by
  have hone : toNearest 1 = 1 := toNearest_of_lt (by decide)
  exact Nat.lt_of_lt_of_le (hone ▸ Nat.one_pos) (toNearest_mono h)

open Float.Model (UnpackedFloat Format totalExponent)
open Float.Model.UnpackedFloat

/-! ## Rounding of mantissas -/

/-- What is left of a mantissa, the last bit that is gone, and whether there was another one. -/
theorem shiftRight_succ (m k : Nat) :
    (ExtendedMantissa.mk m false false) >>> (k + 1) =
      ⟨m / 2 ^ (k + 1), m / 2 ^ k % 2 != 0, m % 2 ^ k != 0⟩ := by
  induction k with
  | zero =>
    show ExtendedMantissa.shiftRightOne ⟨m, false, false⟩ = _
    simp [ExtendedMantissa.shiftRightOne, Nat.mod_one]
  | succ k ih =>
    show ExtendedMantissa.shiftRightOne (ExtendedMantissa.mk m false false >>> (k + 1)) = _
    rw [ih, ExtendedMantissa.shiftRightOne]
    have hdiv : m / 2 ^ (k + 1) / 2 = m / 2 ^ (k + 1 + 1) := by
      rw [Nat.div_div_eq_div_mul, ← Nat.pow_succ]
    have hmod : m % 2 ^ (k + 1) = m % 2 ^ k + 2 ^ k * (m / 2 ^ k % 2) := Nat.mod_pow_succ
    have hsticky : ((m / 2 ^ k % 2 != 0) || (m % 2 ^ k != 0)) = (m % 2 ^ (k + 1) != 0) := by
      have hpos := Nat.two_pow_pos k
      rw [hmod, Bool.eq_iff_iff]
      simp only [Bool.or_eq_true, bne_iff_ne, Ne, Nat.add_eq_zero_iff, Nat.mul_eq_zero]
      omega
    rw [hdiv, hsticky]

theorem roundedMantissa_shiftRight (m k : Nat) :
    ((ExtendedMantissa.mk m false false) >>> k).roundedMantissa = roundDiv m (2 ^ k) := by
  cases k with
  | zero =>
    show m = roundDiv m 1
    simpa using (roundDiv_mul_self m Nat.one_pos).symm
  | succ k =>
    have hpos := Nat.two_pow_pos k
    have hlt := Nat.mod_lt m hpos
    have hmod : m % 2 ^ (k + 1) = m % 2 ^ k + 2 ^ k * (m / 2 ^ k % 2) := Nat.mod_pow_succ
    have hdouble : 2 ^ (k + 1) = 2 * 2 ^ k := Nat.pow_succ'
    rw [shiftRight_succ]
    unfold roundDiv ExtendedMantissa.roundedMantissa
    dsimp only
    rw [hmod]
    obtain hbit | hbit := Nat.mod_two_eq_zero_or_one (m / 2 ^ k)
    · have hlow : 2 * (m % 2 ^ k + 2 ^ k * (m / 2 ^ k % 2)) < 2 ^ (k + 1) := by
        rw [hbit]
        omega
      rw [if_pos hlow, hbit]
      cases hrest : m % 2 ^ k with
      | zero => rfl
      | succ n => rfl
    · rw [hbit, Nat.mul_one]
      cases hrest : m % 2 ^ k with
      | zero =>
        rw [if_neg (by omega), if_neg (by omega)]
        rfl
      | succ n =>
        rw [if_neg (by omega), if_pos (by omega)]
        rfl

theorem shiftToTargetExponent_eq {m k : Nat} {e : Int}
    (h : Format.binary64.targetExponent (totalExponent m e) = e + k) :
    shiftToTargetExponent .binary64 m e .exact =
      (ExtendedMantissa.mk m false false >>> k, e + k) := by
  have hk : (e + k - e).toNat = k := by omega
  unfold shiftToTargetExponent shiftToExponent
  dsimp only
  rw [h, hk]
  rfl

theorem targetExponent_eq (m : Nat) (e : Int) :
    Format.binary64.targetExponent (totalExponent m e) = max (m.log2 - 52 + e) (-1074) := by
  unfold Format.targetExponent totalExponent
  have hbits : (Format.binary64.mantissaBits : Int) = 53 := by decide
  have hmin : Format.binary64.minExponent = -1074 := by decide
  rw [hbits, hmin]
  congr 1
  omega

/-- A mantissa of more than 52 bits is rounded to 53, and it is halved if it takes one bit more. -/
theorem roundWithAccuracy_exact (s : Sign) {m k : Nat} {e : Int} (hk : m.log2 = 52 + k)
    (he : -1074 ≤ e + k) :
    ∃ m' e' hm, roundWithAccuracy .binary64 s m e .exact = .finite s m' e' hm ∧
      2 ^ 52 ≤ m' ∧ m' < 2 ^ 53 ∧
      (m' = roundDiv m (2 ^ k) ∧ e' = e + k ∨
        2 * m' = roundDiv m (2 ^ k) ∧ e' = e + k + 1) := by
  have hm : 2 ^ 52 ≤ m :=
    (Nat.le_log2 (by rintro rfl; rw [Nat.log2_zero] at hk; omega)).1 (by omega)
  have hlow : 2 ^ 52 ≤ roundDiv m (2 ^ k) := by
    have := le_roundDiv hm
    rwa [hk, Nat.add_sub_cancel_left] at this
  have hhigh : roundDiv m (2 ^ k) ≤ 2 ^ 53 := by
    have := roundDiv_le m
    rwa [hk, Nat.add_sub_cancel_left] at this
  have hfirst : shiftToTargetExponent .binary64 m e .exact =
      (ExtendedMantissa.mk m false false >>> k, e + k) := by
    refine shiftToTargetExponent_eq ?_
    rw [targetExponent_eq, hk]
    omega
  unfold roundWithAccuracy
  rw [hfirst]
  dsimp only
  rw [roundedMantissa_shiftRight]
  generalize roundDiv m (2 ^ k) = r at hlow hhigh ⊢
  obtain hlt | rfl := Nat.lt_or_eq_of_le hhigh
  · have hlog : r.log2 = 52 := (Nat.log2_eq_iff (by omega)).2 ⟨hlow, hlt⟩
    have hsecond : shiftToTargetExponent .binary64 r (e + k) .exact =
        (ExtendedMantissa.mk r false false >>> 0, e + k + (0 : Nat)) := by
      refine shiftToTargetExponent_eq ?_
      rw [targetExponent_eq, hlog]
      omega
    rw [hsecond]
    refine ⟨r, e + k, by omega, ?_, hlow, hlt, .inl ⟨rfl, rfl⟩⟩
    show (if h : r = 0 then _ else _) = _
    rw [dif_neg (by omega)]
    congr 1
    omega
  · have hsecond : shiftToTargetExponent .binary64 (2 ^ 53) (e + k) .exact =
        (ExtendedMantissa.mk (2 ^ 53) false false >>> 1, e + k + (1 : Nat)) := by
      refine shiftToTargetExponent_eq ?_
      rw [targetExponent_eq, Nat.log2_two_pow]
      omega
    rw [hsecond]
    exact ⟨2 ^ 52, e + k + 1, by decide, rfl, by decide, by decide, .inr ⟨rfl, rfl⟩⟩

/-! ## Whole numbers -/

/-- All numbers are less. -/
def bound : Nat := 2 ^ 1024

theorem lt_bound {n : Nat} (h : n < 2 ^ 53) : n < bound := by
  refine Nat.lt_of_lt_of_le h ?_
  unfold bound
  exact pow_le_pow_right₀ (by decide) (by decide)

/-- That `m * 2 ^ e` is the number `n`. -/
def IsWhole (m : Nat) (e : Int) (n : Nat) : Prop := m * 2 ^ e.toNat = n * 2 ^ (-e).toNat

theorem whole?_eq_some_iff {m n : Nat} {e : Int} :
    (Magnitude.finite m e).whole? = some n ↔ IsWhole m e n := by
  unfold Magnitude.whole? IsWhole
  show (if 0 ≤ e then some (m * 2 ^ e.toNat)
    else if m % 2 ^ (-e).toNat = 0 then some (m / 2 ^ (-e).toNat) else none) = some n ↔ _
  by_cases he : 0 ≤ e
  · have hzero : (-e).toNat = 0 := by omega
    rw [if_pos he, hzero, Nat.pow_zero, Nat.mul_one, Option.some.injEq]
  · have hzero : e.toNat = 0 := by omega
    have hpos := Nat.two_pow_pos (-e).toNat
    rw [if_neg he, hzero, Nat.pow_zero, Nat.mul_one]
    constructor
    · intro h
      split at h
      · rename_i hmod
        rw [← Option.some.inj h, Nat.div_mul_cancel (Nat.dvd_of_mod_eq_zero hmod)]
      · cases h
    · rintro rfl
      rw [Nat.mul_mod_left, if_pos rfl, Nat.mul_div_left _ hpos]

theorem log2_mul_two_pow {n : Nat} (h : 0 < n) (k : Nat) : (n * 2 ^ k).log2 = n.log2 + k := by
  have hne : n ≠ 0 := Nat.pos_iff_ne_zero.1 h
  rw [Nat.log2_eq_iff (Nat.mul_ne_zero hne (Nat.pos_iff_ne_zero.1 (Nat.two_pow_pos k))),
    Nat.pow_add, Nat.add_right_comm, Nat.pow_add]
  exact ⟨Nat.mul_le_mul_right _ (Nat.log2_self_le hne),
    Nat.mul_lt_mul_of_pos_right Nat.lt_log2_self (Nat.two_pow_pos k)⟩

namespace IsWhole

variable {m n : Nat} {e : Int}

theorem pos (h : IsWhole m e n) (hn : 0 < n) : 0 < m := by
  refine Nat.pos_of_ne_zero ?_
  rintro rfl
  have : 0 < n * 2 ^ (-e).toNat := Nat.mul_pos hn (Nat.two_pow_pos _)
  unfold IsWhole at h
  omega

theorem log2_eq (h : IsWhole m e n) (hn : 0 < n) : (m.log2 : Int) + e = n.log2 := by
  have hlog := congrArg Nat.log2 h
  rw [log2_mul_two_pow (h.pos hn), log2_mul_two_pow hn] at hlog
  omega

/-- A mantissa is halved with the next exponent. -/
theorem half (h : IsWhole (2 * m) e n) : IsWhole m (e + 1) n := by
  unfold IsWhole at h ⊢
  by_cases he : 0 ≤ e
  · have hexp : (e + 1).toNat = e.toNat + 1 := by omega
    have hzero : (-e).toNat = 0 := by omega
    have hzero' : (-(e + 1)).toNat = 0 := by omega
    rw [hzero] at h
    rw [hexp, hzero', ← h, Nat.pow_succ]
    ring
  · have hexp : (-e).toNat = (-(e + 1)).toNat + 1 := by omega
    have hzero : e.toNat = 0 := by omega
    have hzero' : (e + 1).toNat = 0 := by omega
    rw [hzero, hexp, Nat.pow_succ, Nat.pow_zero, ← Nat.mul_assoc] at h
    rw [hzero', Nat.pow_zero]
    omega

/-- Mantissas and exponents are multiplied and added up. -/
theorem mul {m' n' : Nat} {e' : Int} (h : IsWhole m e n) (h' : IsWhole m' e' n') :
    IsWhole (m * m') (e + e') (n * n') := by
  unfold IsWhole at *
  have hexp : (e + e').toNat + ((-e).toNat + (-e').toNat) =
      (-(e + e')).toNat + (e.toNat + e'.toNat) := by omega
  refine Nat.eq_of_mul_eq_mul_right (Nat.two_pow_pos ((-e).toNat + (-e').toNat)) ?_
  calc m * m' * 2 ^ (e + e').toNat * 2 ^ ((-e).toNat + (-e').toNat)
      = m * m' * (2 ^ (-(e + e')).toNat * 2 ^ (e.toNat + e'.toNat)) := by
        rw [Nat.mul_assoc, ← Nat.pow_add, hexp, Nat.pow_add]
    _ = 2 ^ (-(e + e')).toNat * ((m * 2 ^ e.toNat) * (m' * 2 ^ e'.toNat)) := by
        rw [Nat.pow_add]
        ring
    _ = _ := by
        rw [h, h', Nat.pow_add]
        ring

/-- What comes of a whole number if its mantissa is rounded is the number rounded. -/
theorem round (h : IsWhole m e n) (hn : 0 < n) {k : Nat} (hk : m.log2 = 52 + k) :
    IsWhole (roundDiv m (2 ^ k)) (e + k) (toNearest n) := by
  have hlog := h.log2_eq hn
  unfold IsWhole at h ⊢
  by_cases hlarge : 52 ≤ n.log2
  · have hexp : (e + k).toNat = n.log2 - 52 := by omega
    have hzero : (-(e + k)).toNat = 0 := by omega
    have hscale : 2 ^ k * 2 ^ e.toNat = 2 ^ (n.log2 - 52) * 2 ^ (-e).toNat := by
      rw [← Nat.pow_add, ← Nat.pow_add]
      congr 1
      omega
    rw [hexp, hzero, toNearest, Nat.pow_zero, Nat.mul_one,
      ← roundDiv_mul_right m _ (Nat.two_pow_pos e.toNat), h, hscale,
      roundDiv_mul_right n _ (Nat.two_pow_pos _)]
  · have hexp : (-(e + k)).toNat = 52 - n.log2 := by omega
    have hzero : (e + k).toNat = 0 := by omega
    have hmantissa : m = n * 2 ^ (52 - n.log2) * 2 ^ k := by
      refine Nat.eq_of_mul_eq_mul_right (Nat.two_pow_pos e.toNat) ?_
      rw [h, Nat.mul_assoc, Nat.mul_assoc, ← Nat.pow_add, ← Nat.pow_add]
      congr 2
      omega
    have hsmall : n < 2 ^ 53 :=
      Nat.lt_of_lt_of_le Nat.lt_log2_self (Nat.pow_le_pow_right (by decide) (by omega))
    rw [hexp, hzero, toNearest_of_lt hsmall, hmantissa, roundDiv_mul_self _ (Nat.two_pow_pos k),
      Nat.pow_zero, Nat.mul_one]

theorem le_of_full (h : IsWhole m e n) (hm : 2 ^ 52 ≤ m) (hn : n < bound) : e ≤ 971 := by
  by_contra hlarge
  have hzero : (-e).toNat = 0 := by omega
  unfold IsWhole at h
  rw [hzero, Nat.pow_zero, Nat.mul_one] at h
  have hle : 2 ^ 52 * 2 ^ e.toNat ≤ n := h ▸ Nat.mul_le_mul_right _ hm
  rw [← Nat.pow_add] at hle
  have hexp : 1024 ≤ 52 + e.toNat := by omega
  have hpow : bound ≤ 2 ^ (52 + e.toNat) := by
    unfold bound
    exact pow_le_pow_right₀ (by decide) hexp
  exact absurd hn (Nat.not_lt.2 (Nat.le_trans hpow hle))

/-- Of the mantissas and exponents that fit, one pair gives a number. -/
theorem unique {m' : Nat} {e' : Int} (h : IsWhole m e n) (h' : IsWhole m' e' n) (hn : 0 < n)
    (hfits : Fits m e) (hfits' : Fits m' e') : m = m' ∧ e = e' := by
  have hfull : ∀ {m e}, IsWhole m e n → Fits m e → m.log2 = 52 := by
    intro m e h hfits
    have hlog := h.log2_eq hn
    have hle := log2_le_of_lt hfits.lt
    have hlow := hfits.full.imp_left (Nat.le_log2 (Nat.pos_iff_ne_zero.1 (h.pos hn))).2
    omega
  have hlog := h.log2_eq hn
  have hlog' := h'.log2_eq hn
  rw [hfull h hfits] at hlog
  rw [hfull h' hfits'] at hlog'
  obtain rfl : e = e' := by omega
  exact ⟨Nat.eq_of_mul_eq_mul_right (Nat.two_pow_pos e.toNat) (h.trans h'.symm), rfl⟩

end IsWhole

/-- The rounding of a whole number is one, as long as it is not too large. -/
theorem exists_round (s : Sign) {m n : Nat} {e : Int} (h : IsWhole m e n) (hm : 2 ^ 52 ≤ m)
    (hn : 0 < n) (hbound : toNearest n < bound) :
    ∃ m' e' hm', roundWithAccuracy .binary64 s m e .exact = .finite s m' e' hm' ∧ Fits m' e' ∧
      IsWhole m' e' (toNearest n) := by
  have hlarge : 52 ≤ m.log2 := (Nat.le_log2 (Nat.pos_iff_ne_zero.1 (h.pos hn))).2 hm
  obtain ⟨k, hk⟩ := Nat.exists_eq_add_of_le hlarge
  have hlog := h.log2_eq hn
  obtain ⟨m', e', hm', heq, hlow, hhigh, hparts⟩ := roundWithAccuracy_exact s hk (e := e) (by omega)
  have hwhole : IsWhole m' e' (toNearest n) := by
    obtain ⟨hm, rfl⟩ | ⟨hm, rfl⟩ := hparts
    · exact hm ▸ h.round hn hk
    · exact (hm ▸ h.round hn hk).half
  refine ⟨m', e', hm', heq, ⟨hhigh, ?_, hwhole.le_of_full hlow hbound, .inl hlow⟩, hwhole⟩
  obtain ⟨-, rfl⟩ | ⟨-, rfl⟩ := hparts <;> omega

/-- That a number is whole, not zero, and has this sign. -/
def Holds (x : Float) (s : Sign) (n : Nat) : Prop :=
  ∃ m e hm, parts x = .finite s m e hm ∧ IsWhole m e n

namespace Holds

variable {x y : Float} {s s' : Sign} {n n' : Nat}

/-- Whole numbers with the same sign are equal. -/
theorem beq (h : Holds x s n) (h' : Holds y s n) (hn : 0 < n) : (x == y) = true := by
  obtain ⟨m, e, hm, hparts, hwhole⟩ := h
  obtain ⟨m', e', hm', hparts', hwhole'⟩ := h'
  obtain ⟨rfl, rfl⟩ := hwhole.unique hwhole' hn (fits_of_parts hparts) (fits_of_parts hparts')
  show (UnpackedFloat.compare (parts x) (parts y) == some .eq) = true
  rw [hparts, hparts']
  cases s <;> simp [UnpackedFloat.compare]

theorem full (h : Holds x s n) (hn : 0 < n) :
    ∃ m e hm, parts x = .finite s m e hm ∧ IsWhole m e n ∧ 2 ^ 52 ≤ m := by
  obtain ⟨m, e, hm, hparts, hwhole⟩ := h
  refine ⟨m, e, hm, hparts, hwhole, ?_⟩
  have hfits := fits_of_parts hparts
  have hlog := hwhole.log2_eq hn
  have hle := log2_le_of_lt hfits.lt
  exact hfits.full.resolve_right (by omega)

/-- A product of whole numbers is the exact one rounded. -/
theorem mul (h : Holds x s n) (h' : Holds y s' n') (hn : 0 < n) (hn' : 0 < n')
    (hbound : toNearest (n * n') < bound) : Holds (x * y) (s * s') (toNearest (n * n')) := by
  obtain ⟨m, e, hm, hparts, hwhole, hfull⟩ := h.full hn
  obtain ⟨m', e', hm', hparts', hwhole', -⟩ := h'.full hn'
  obtain ⟨m₂, e₂, hm₂, heq, hfits, hwhole₂⟩ := exists_round (s * s') (hwhole.mul hwhole')
    (Nat.le_trans hfull (Nat.le_mul_of_pos_right m hm')) (Nat.mul_pos hn hn') hbound
  refine ⟨m₂, e₂, hm₂, ?_, hwhole₂⟩
  show parts (ofParts (UnpackedFloat.mul .binary64 (parts x) (parts y))) = _
  rw [hparts, hparts', UnpackedFloat.mul, heq, parts_ofParts hm₂ hfits]

end Holds

/-! ## Numbers made of whole ones -/

theorem isWhole_shiftLeft (n k : Nat) : IsWhole (n <<< k) (-k) n := by
  have hzero : (-(k : Int)).toNat = 0 := by omega
  have hexp : (-(-(k : Int))).toNat = k := by omega
  unfold IsWhole
  rw [hzero, hexp, Nat.shiftLeft_eq, Nat.pow_zero, Nat.mul_one]

/-- A word that fits is taken as it is. -/
theorem holds_toFloat {n : Nat} (hn : 0 < n) (h : n < 2 ^ 53) :
    Holds n.toUInt64.toFloat .positive n := by
  have hword : n.toUInt64.toNat = n := by
    rw [Nat.toUInt64_eq, UInt64.toNat_ofNat']
    omega
  have hlog := log2_le_of_lt h
  have htarget : Format.binary64.targetExponent (totalExponent n 0) =
      -((52 - n.log2 : Nat) : Int) := by
    rw [targetExponent_eq]
    omega
  have hmantissa : 2 ^ 52 ≤ n <<< (52 - n.log2) := by
    have hexp : n.log2 + (52 - n.log2) = 52 := by omega
    rw [Nat.shiftLeft_eq, ← hexp, Nat.pow_add, hexp]
    exact Nat.mul_le_mul_right _ (Nat.log2_self_le (Nat.pos_iff_ne_zero.1 hn))
  have hbound : toNearest n < bound := by
    rw [toNearest_of_lt h]
    exact lt_bound h
  obtain ⟨m, e, hm, heq, hfits, hwhole⟩ :=
    exists_round .positive (isWhole_shiftLeft n (52 - n.log2)) hmantissa hn hbound
  rw [toNearest_of_lt h] at hwhole
  refine ⟨m, e, hm, ?_, hwhole⟩
  have hround : UnpackedFloat.ofUInt64 .binary64 n.toUInt64 = .finite .positive m e hm := by
    unfold UnpackedFloat.ofUInt64 UnpackedFloat.ofNat UnpackedFloat.ofInt UnpackedFloat.normalize
    rw [hword]
    have hcompare : compare (n : Int) 0 = .gt := by
      rw [Int.compare_eq_gt]
      omega
    rw [hcompare]
    show UnpackedFloat.round .binary64 .positive (n : Int).toNat 0 = _
    rw [Int.toNat_natCast, UnpackedFloat.round, htarget]
    unfold decreaseExponent
    have hshift : (0 - -((52 - n.log2 : Nat) : Int)).toNat = 52 - n.log2 := by omega
    dsimp only
    rw [hshift, Int.zero_sub, heq]
  show parts (ofParts (UnpackedFloat.ofUInt64 .binary64 n.toUInt64)) = _
  rw [hround, parts_ofParts hm hfits]

/-- What is made of a whole number and a power of ten is their product, rounded. -/
theorem holds_ofScientific {n e : Nat} (hn : 0 < n) (h : ¬(n < 2 ^ 53 ∧ e ≤ 22)) (he : e ≤ 2048)
    (hbound : toNearest (n * 10 ^ e) < bound) :
    Holds (Float.ofScientific n false e) .positive (toNearest (n * 10 ^ e)) := by
  have hpower : 0 < 10 ^ e := Nat.pow_pos (by decide)
  have hmantissa : 2 ^ 52 ≤ n <<< 53 * 10 ^ e := by
    refine Nat.le_trans ?_ (Nat.le_mul_of_pos_right _ hpower)
    rw [Nat.shiftLeft_eq]
    omega
  have hwhole : IsWhole (10 ^ e) 0 (10 ^ e) := rfl
  obtain ⟨m, e', hm, heq, hfits, hwhole⟩ := exists_round .positive
    ((isWhole_shiftLeft n 53).mul hwhole) hmantissa (Nat.mul_pos hn hpower) hbound
  refine ⟨m, e', hm, ?_, hwhole⟩
  have hsize : (2 : Int) ^ Format.binary64.exponentBits = 2048 := by decide
  unfold Float.ofScientific
  rw [dif_neg h]
  show parts (ofParts (UnpackedFloat.ofScientific .binary64 n (e : Int))) = _
  unfold UnpackedFloat.ofScientific
  rw [dif_neg (Nat.pos_iff_ne_zero.1 hn), hsize, if_neg (by omega), if_neg (by omega),
    if_pos (by omega)]
  show parts (ofParts (roundWithAccuracy .binary64 .positive (n <<< 53 * 10 ^ e) _ .exact)) = _
  exact (congrArg (fun u => parts (ofParts u)) heq).trans (parts_ofParts hm hfits)

/-- The number that is made of a whole one is it, rounded. -/
theorem holds_ofNat {n : Nat} (hn : 0 < n) (hbound : toNearest n < bound) :
    Holds (Float.ofNat n) .positive (toNearest n) := by
  show Holds (Float.ofScientific n false 0) _ _
  by_cases h : n < 2 ^ 53
  · unfold Float.ofScientific
    rw [dif_pos ⟨h, by decide⟩]
    have hone : Holds (Float.ofBits 0x3FF0000000000000) .positive 1 :=
      ⟨2 ^ 52, -52, by decide, by rfl, by unfold IsWhole; decide⟩
    have hmul := (holds_toFloat hn h).mul hone hn Nat.one_pos (by rwa [Nat.mul_one])
    rwa [Nat.mul_one] at hmul
  · have hmade := holds_ofScientific hn (fun hc => h hc.1) (Nat.zero_le _)
      (by rwa [Nat.pow_zero, Nat.mul_one])
    rwa [Nat.pow_zero, Nat.mul_one] at hmade

theorem Holds.neg {x : Float} {s : Sign} {n : Nat} (h : Holds x s n) : Holds (-x) (-s) n := by
  obtain ⟨m, e, hm, hparts, hwhole⟩ := h
  refine ⟨m, e, hm, ?_, hwhole⟩
  show parts (ofParts (UnpackedFloat.neg (parts x))) = _
  rw [hparts]
  exact parts_ofParts hm (fits_of_parts hparts)

/-! ## Numbers that are whole -/

theorem integer?_of_parts {x : Float} {s : Sign} {m : Nat} {e : Int} {hm : 0 < m}
    (h : parts x = .finite s m e hm) :
    integer? x = (Magnitude.finite m e).whole?.map fun n : Nat => s.apply (n : Int) := by
  unfold integer?
  rw [magnitude_eq, h, isNegative_of_parts h, magnitudeOf]
  cases (Magnitude.finite m e).whole? with
  | none => rfl
  | some n => cases s <;> rfl

theorem integer?_of_zero {x : Float} {s : Sign} (h : parts x = .zero s) : integer? x = some 0 := by
  have hzero : (magnitudeOf (.zero s)).whole? = some 0 := by
    refine whole?_eq_some_iff.2 ?_
    unfold IsWhole
    rw [Nat.zero_mul, Nat.zero_mul]
  unfold integer?
  rw [magnitude_eq, h, hzero]
  cases isNegative x <;> rfl

/-- A whole number is a zero, or it is held with its sign. -/
theorem parts_of_integer? {x : Float} {n : Int} (h : integer? x = some n) :
    (n = 0 ∧ ∃ s, parts x = .zero s) ∨ 0 < n ∧ Holds x .positive n.natAbs ∨
      n < 0 ∧ Holds x .negative n.natAbs := by
  cases hparts : parts x with
  | infinity s | notANumber =>
    unfold integer? at h
    rw [magnitude_eq, hparts] at h
    cases h
  | zero s =>
    rw [integer?_of_zero hparts] at h
    exact .inl ⟨(Option.some.inj h).symm, s, rfl⟩
  | finite s m e hm =>
    rw [integer?_of_parts hparts] at h
    obtain ⟨k, hk, rfl⟩ := Option.map_eq_some_iff.1 h
    have hwhole := whole?_eq_some_iff.1 hk
    have hpos : 0 < k := by
      refine Nat.pos_of_ne_zero ?_
      rintro rfl
      unfold IsWhole at hwhole
      have := Nat.mul_pos hm (Nat.two_pow_pos e.toNat)
      omega
    right
    cases s with
    | positive =>
      exact .inl ⟨Int.natCast_pos.2 hpos, m, e, hm, hparts, (Int.natAbs_natCast k).symm ▸ hwhole⟩
    | negative =>
      have habs : (Sign.apply .negative (k : Int)).natAbs = k := by
        show (-(k : Int)).natAbs = k
        omega
      refine .inr ⟨?_, m, e, hm, hparts, habs.symm ▸ hwhole⟩
      show -(k : Int) < 0
      omega

theorem isFinite_of_integer? {x : Float} {n : Int} (h : integer? x = some n) :
    isFinite x = true := by
  unfold integer? at h
  unfold isFinite
  cases hm : magnitude x with
  | finite m e => rfl
  | _ => rw [hm] at h; cases h

/-- A whole number is equal to itself. -/
theorem beq_self_of_integer? {x : Float} {n : Int} (h : integer? x = some n) : (x == x) = true := by
  refine Float.beq_self_iff.2 ?_
  rintro rfl
  have hnone : integer? .nan = none := by decide +kernel
  rw [hnone] at h
  cases h

theorem holds_ofNat_of_lt {n : Nat} (hpos : 0 < n) (hn : n < 2 ^ 53) :
    Holds (Float.ofNat n) .positive n := by
  have hround := toNearest_of_lt hn
  have hofNat := holds_ofNat hpos (hround.symm ▸ lt_bound hn)
  rwa [hround] at hofNat

/-- The number that is made of a whole one that fits 53 bits is that one. -/
theorem integer?_ofNat {n : Nat} (hn : n < 2 ^ 53) : integer? (Float.ofNat n) = some (n : Int) := by
  rcases Nat.eq_zero_or_pos n with rfl | hpos
  · exact integer?_of_zero (s := .positive) rfl
  · obtain ⟨m, e, hm, hparts, hwhole⟩ := holds_ofNat_of_lt hpos hn
    rw [integer?_of_parts hparts, whole?_eq_some_iff.2 hwhole]
    rfl

/-- A whole number that fits 53 bits is equal to the one that is made of it. -/
theorem ofInt_beq {x : Float} {n : Int} (h : integer? x = some n) (hn : n.natAbs < 2 ^ 53) :
    (Float.ofInt n == x) = true := by
  obtain ⟨rfl, s, hparts⟩ | ⟨hpos, hx⟩ | ⟨hneg, hx⟩ := parts_of_integer? h
  · have hzero : parts (Float.ofInt 0) = .zero .positive := by rfl
    show (UnpackedFloat.compare (parts (Float.ofInt 0)) (parts x) == some .eq) = true
    rw [hzero, hparts]
    rfl
  · obtain ⟨k, rfl⟩ := Int.eq_ofNat_of_zero_le (Int.le_of_lt hpos)
    rw [Int.natAbs_natCast] at hn hx
    exact (holds_ofNat_of_lt (Int.natCast_pos.1 hpos) hn).beq hx (Int.natCast_pos.1 hpos)
  · obtain ⟨k, rfl⟩ := Int.eq_negSucc_of_lt_zero hneg
    exact (holds_ofNat_of_lt (Nat.succ_pos k) hn).neg.beq hx (Nat.succ_pos k)

end Archipelago.Decimal
