import Archipelago.Decimal.Shortest
import Mathlib.Data.Nat.Digits.Lemmas
import Mathlib.Tactic.Ring

/-!
# Digits that do not pass a number

The digits a number is written with are not all zero, and they do not stand for more than what is
still rounded to it. The grids are tried from coarse to fine, so what carries the proof is that a
power of ten that a number reaches is reached with the smaller ones.
-/

namespace Archipelago.Decimal

namespace Rounding

variable {r : Rounding}

/-- That the value is no less than `10 ^ k`. -/
def Reaches (r : Rounding) (k : Int) : Prop :=
  r.unit * pow10 k.toNat ≤ r.value * pow10 (-k).toNat

/-- That `n * 10 ^ k` is not above the rounding interval. -/
def Covers (r : Rounding) (n : Nat) (k : Int) : Prop :=
  n * pow10 k.toNat * r.unit ≤ r.high * pow10 (-k).toNat

theorem Reaches.pred {k : Int} (h : r.Reaches k) : r.Reaches (k - 1) := by
  unfold Reaches at h ⊢
  simp only [pow10, Nat.pow_eq] at h ⊢
  by_cases hk : 0 < k
  · have hexp : k.toNat = (k - 1).toNat + 1 := by omega
    have hzero : (-k).toNat = 0 := by omega
    have hzero' : (-(k - 1)).toNat = 0 := by omega
    rw [hexp, hzero, Nat.pow_succ] at h
    rw [hzero']
    refine Nat.le_trans (Nat.mul_le_mul_left _ ?_) h
    exact Nat.le_mul_of_pos_right _ (by decide)
  · have hexp : (-(k - 1)).toNat = (-k).toNat + 1 := by omega
    have hzero : k.toNat = 0 := by omega
    have hzero' : (k - 1).toNat = 0 := by omega
    rw [hzero] at h
    rw [hzero', hexp, Nat.pow_succ, ← Nat.mul_assoc]
    exact Nat.le_trans h (Nat.le_mul_of_pos_right _ (by decide))

/-- With digits left out at the end, no more is stood for. -/
theorem Covers.of_mul_le {n d j : Nat} {k : Int} (h : r.Covers d k) (hle : n * 10 ^ j ≤ d) :
    r.Covers n (k + j) := by
  unfold Covers at h ⊢
  simp only [pow10, Nat.pow_eq] at h ⊢
  have hexp : (k + j).toNat + (-k).toNat = j + k.toNat + (-(k + j)).toNat := by omega
  refine Nat.le_of_mul_le_mul_right ?_ (Nat.pow_pos (a := 10) (n := (-k).toNat) (by decide))
  calc n * 10 ^ (k + j).toNat * r.unit * 10 ^ (-k).toNat
      = n * 10 ^ ((k + j).toNat + (-k).toNat) * r.unit := by rw [Nat.pow_add]; ring
    _ = n * 10 ^ j * (10 ^ k.toNat * r.unit * 10 ^ (-(k + j)).toNat) := by
        rw [hexp, Nat.pow_add, Nat.pow_add]
        ring
    _ ≤ d * (10 ^ k.toNat * r.unit * 10 ^ (-(k + j)).toNat) := Nat.mul_le_mul_right _ hle
    _ = d * 10 ^ k.toNat * r.unit * 10 ^ (-(k + j)).toNat := by ring
    _ ≤ r.high * 10 ^ (-k).toNat * 10 ^ (-(k + j)).toNat := Nat.mul_le_mul_right _ h
    _ = r.high * 10 ^ (-(k + j)).toNat * 10 ^ (-k).toNat := by ring

/-- The leading digit of the value is not zero. -/
theorem reaches_lead (hvalue : 0 < r.value) (hunit : 0 < r.unit) : r.Reaches r.lead := by
  unfold Reaches lead
  simp only [pow10, Nat.pow_eq]
  split
  · rename_i hle
    have hquotient := Nat.div_pos hle hunit
    have hlength := @Nat.length_toDigits_pos 10 (r.value / r.unit)
    have hexp : (((Nat.toDigits 10 (r.value / r.unit)).length : Int) - 1).toNat =
        (Nat.toDigits 10 (r.value / r.unit)).length - 1 := by omega
    have hzero : (-(((Nat.toDigits 10 (r.value / r.unit)).length : Int) - 1)).toNat = 0 := by omega
    rw [hexp, hzero, Nat.pow_zero, Nat.mul_one, Nat.mul_comm, ← Nat.le_div_iff_mul_le hunit]
    obtain hone | hmore := Nat.eq_or_lt_of_le (show 1 ≤ _ from hlength)
    · rw [← hone]
      exact hquotient
    · by_contra hlt
      have hle := (Nat.length_toDigits_le_iff (b := 10) (by decide)
        (Nat.sub_pos_of_lt hmore)).2 (Nat.lt_of_not_le hlt)
      omega
  · rename_i hlt
    have hlength := @Nat.length_toDigits_pos 10 ((r.unit - 1) / r.value)
    have hexp : (-(-((Nat.toDigits 10 ((r.unit - 1) / r.value)).length : Int))).toNat =
        (Nat.toDigits 10 ((r.unit - 1) / r.value)).length := by omega
    have hzero : (-((Nat.toDigits 10 ((r.unit - 1) / r.value)).length : Int)).toNat = 0 := by omega
    have hpow := (Nat.length_toDigits_le_iff (b := 10) (by decide) hlength).1 (Nat.le_refl _)
    rw [hexp, hzero, Nat.pow_zero, Nat.mul_one]
    have hmul := (Nat.div_lt_iff_lt_mul hvalue).1 hpow
    rw [Nat.mul_comm] at hmul
    omega

theorem covers_of_contains {n : Nat} {k : Int}
    (h : r.contains (n * pow10 k.toNat) (pow10 (-k).toNat) = true) : r.Covers n k := by
  unfold contains at h
  unfold Covers
  split at h
  · simp only [Bool.and_eq_true, decide_eq_true_eq] at h
    exact h.2
  · simp only [Bool.and_eq_true, decide_eq_true_eq] at h
    exact Nat.le_of_lt h.2

theorem pos_of_contains (hlow : 0 < r.low) {n : Nat} {k : Int}
    (h : r.contains (n * pow10 k.toNat) (pow10 (-k).toNat) = true) : 0 < n := by
  have hden : 0 < pow10 (-k).toNat := Nat.pow_pos (by decide)
  have hpos := Nat.mul_pos hlow hden
  refine Nat.pos_of_ne_zero ?_
  rintro rfl
  unfold contains at h
  rw [Nat.zero_mul, Nat.zero_mul] at h
  split at h
  · simp only [Bool.and_eq_true, decide_eq_true_eq] at h
    omega
  · simp only [Bool.and_eq_true, decide_eq_true_eq] at h
    omega

/-- What is found on a grid is within the rounding interval. -/
theorem contains_of_onGrid? {tie : Tie} {k : Int} {n : Nat} (h : r.onGrid? tie k = some n) :
    r.contains (n * pow10 k.toNat) (pow10 (-k).toNat) = true := by
  unfold onGrid? at h
  dsimp only at h
  generalize r.value * pow10 (-k).toNat / (pow10 k.toNat * r.unit) = a at h
  generalize r.value * pow10 (-k).toNat % (pow10 k.toNat * r.unit) = rest at h
  split at h
  · rename_i hboth
    obtain ⟨hlow, hhigh⟩ := Bool.and_eq_true_iff.1 hboth
    have htie : ∀ {c : Prop} [Decidable c], (if c then a else a + 1) = n →
        r.contains (n * pow10 k.toNat) (pow10 (-k).toNat) = true := by
      rintro c _ rfl
      split
      · exact hlow
      · exact hhigh
    split at h
    · exact Option.some.inj h ▸ hlow
    · split at h
      · exact Option.some.inj h ▸ hhigh
      · cases tie with
        | up => exact Option.some.inj h ▸ hhigh
        | even => exact htie (Option.some.inj h)
  · split at h
    · rename_i hone
      exact Option.some.inj h ▸ (Bool.and_eq_true_iff.1 hone).1
    · split at h
      · rename_i hhigh
        exact Option.some.inj h ▸ hhigh
      · cases h

/-- What a search finds is neither zero nor above the rounding interval, if the value reaches the
finest of the grids. -/
theorem search_spec (tie : Tie) (hlow : 0 < r.low) (hle : r.value ≤ r.high) (hunit : 0 < r.unit)
    (n : Nat) {k : Int} (h : r.Reaches k) :
    0 < (r.search tie n k).digits ∧
      r.Covers (r.search tie n k).digits (r.search tie n k).exponent := by
  induction n generalizing k with
  | zero =>
    have hstep : 0 < pow10 k.toNat * r.unit := Nat.mul_pos (Nat.pow_pos (by decide)) hunit
    have hreach : pow10 k.toNat * r.unit ≤ r.value * pow10 (-k).toNat := by
      rw [Nat.mul_comm]
      exact h
    refine ⟨Nat.div_pos hreach hstep, ?_⟩
    show _ / _ * _ * _ ≤ _
    rw [Nat.mul_assoc]
    exact Nat.le_trans (Nat.div_mul_le_self _ _) (Nat.mul_le_mul_right _ hle)
  | succ n ih =>
    unfold search
    cases hgrid : r.onGrid? tie k with
    | none => exact ih h.pred
    | some d =>
      have hcontains := contains_of_onGrid? hgrid
      exact ⟨pos_of_contains hlow hcontains, covers_of_contains hcontains⟩

end Rounding

/-- The digits of a number are not all zero, and they stand for no more than the number and a half
of its last bit. -/
theorem shortest_spec (tie : Tie) {m : Nat} (hm : 0 < m) (e : Int) :
    0 < (shortest tie m e).digits ∧
      (Rounding.ofBinary m e).Covers (shortest tie m e).digits (shortest tie m e).exponent := by
  have hup : 0 < pow2 (e - 2).toNat := Nat.two_pow_pos _
  have hunit : 0 < (Rounding.ofBinary m e).unit := Nat.two_pow_pos _
  have hvalue : 0 < (Rounding.ofBinary m e).value := Nat.mul_pos (by omega) hup
  have hle : (Rounding.ofBinary m e).value ≤ (Rounding.ofBinary m e).high :=
    Nat.mul_le_mul_right _ (by omega)
  have hlow : 0 < (Rounding.ofBinary m e).low := by
    refine Nat.mul_pos ?_ hup
    split <;> omega
  exact Rounding.search_spec tie hlow hle hunit 17 (Rounding.reaches_lead hvalue hunit)

end Archipelago.Decimal
