import Archipelago.Decimal.Binary
import Mathlib

/-!
# The parts of a number

A number is taken apart into its sign, a mantissa and an exponent, or it is a zero, an infinity or
none at all. The bits say the same, and what has been put together of parts that fit is taken apart
into them again.
-/

namespace Archipelago.Decimal

open Float.Model (UnpackedFloat Format)
open Float.Model.UnpackedFloat

/-- What a number is made of. -/
def parts (x : Float) : UnpackedFloat := x.toModel.unpack

/-- A number put together of its parts. -/
def ofParts (u : UnpackedFloat) : Float := .ofModel (.pack u)

/-- Mantissas and exponents of numbers: 53 bits, the first of them set unless the exponent is the
least. -/
structure Fits (m : Nat) (e : Int) : Prop where
  lt : m < 2 ^ 53
  least : -1074 ≤ e
  greatest : e ≤ 971
  full : 2 ^ 52 ≤ m ∨ e = -1074

/-! ## Bits -/

section Bits

variable (b : BitVec Format.binary64.numBits)

theorem toNat_unpackMantissa : (unpackMantissa b).toNat = b.toNat % 2 ^ 52 := by
  simp [unpackMantissa_def]

theorem toNat_unpackExponent : (unpackExponent b).toNat = b.toNat / 2 ^ 52 % 2 ^ 11 := by
  simp [unpackExponent_def, Nat.shiftRight_eq_div_pow]

theorem toNat_unpackSign : (unpackSign b).toNat = b.toNat / 2 ^ 63 % 2 := by
  simp [unpackSign_def, Nat.shiftRight_eq_div_pow]

end Bits

/-- The exponent of bits that are not those of an infinity or of no number. -/
theorem exponent_eq_iff {b : BitVec Format.binary64.numBits} {n : Nat} (hn : n < 2 ^ 11) :
    unpackExponent b = BitVec.ofNat _ n ↔ b.toNat / 2 ^ 52 % 2 ^ 11 = n := by
  rw [← toNat_unpackExponent, ← BitVec.toNat_inj, BitVec.toNat_ofNat, Nat.mod_eq_of_lt hn]

theorem mantissa_eq_zero_iff {b : BitVec Format.binary64.numBits} :
    unpackMantissa b = 0#_ ↔ b.toNat % 2 ^ 52 = 0 := by
  rw [← toNat_unpackMantissa, ← BitVec.toNat_inj, BitVec.toNat_zero]

theorem toNat_one_append {w : Nat} (v : BitVec w) : (1#1 ++ v).toNat = 2 ^ w + v.toNat := by
  rw [BitVec.toNat_append, ← Nat.shiftLeft_add_eq_or_of_lt v.isLt]
  simp [Nat.shiftLeft_eq]

/-- What parts are as a magnitude. -/
def magnitudeOf : UnpackedFloat → Magnitude
  | .infinity _ => .infinite
  | .notANumber => .nan
  | .zero _ => .finite 0 (-1074)
  | .finite _ m e _ => .finite m e

theorem magnitudeOf_unpack (b : BitVec Format.binary64.numBits) :
    magnitudeOf (UnpackedFloat.unpack .binary64 b) =
      if b.toNat / 2 ^ 52 % 2 ^ 11 = 2047 then
        if b.toNat % 2 ^ 52 = 0 then .infinite else .nan
      else if b.toNat / 2 ^ 52 % 2 ^ 11 = 0 then .finite (b.toNat % 2 ^ 52) (-1074)
      else .finite (b.toNat % 2 ^ 52 + 2 ^ 52) ((b.toNat / 2 ^ 52 % 2 ^ 11 : Nat) - 1075) := by
  have hinfinite : unpackExponent b = -1#_ ↔ b.toNat / 2 ^ 52 % 2 ^ 11 = 2047 :=
    exponent_eq_iff (n := 2047) (by decide)
  have hzero : unpackExponent b = 0#_ ↔ b.toNat / 2 ^ 52 % 2 ^ 11 = 0 :=
    exponent_eq_iff (n := 0) (by decide)
  have hbias : (Format.binary64.exponentBias : Int) + Format.binary64.mantissaBitsWithoutImplicit =
      1075 := by decide
  unfold UnpackedFloat.unpack
  dsimp only
  rw [hbias]
  simp only [hinfinite, hzero]
  split
  · split
    · rename_i h
      rw [if_pos (mantissa_eq_zero_iff.1 h)]
      rfl
    · rename_i h
      rw [if_neg fun hc => h (mantissa_eq_zero_iff.2 hc)]
      rfl
  · split
    · rename_i h
      split
      · rename_i h'
        rw [mantissa_eq_zero_iff.1 h']
        rfl
      · show Magnitude.finite _ _ = _
        rw [toNat_unpackMantissa, toNat_unpackExponent, h]
        rfl
    · show Magnitude.finite _ _ = _
      rw [toNat_one_append, toNat_unpackMantissa, toNat_unpackExponent, Nat.add_comm]

theorem magnitude_eq (x : Float) : magnitude x = magnitudeOf (parts x) :=
  (magnitudeOf_unpack x.toModel.toBits.toBitVec).symm

theorem fits_of_unpack {b : BitVec Format.binary64.numBits} {s : Sign} {m : Nat} {e : Int}
    {hm : 0 < m} (h : UnpackedFloat.unpack .binary64 b = .finite s m e hm) : Fits m e := by
  have hmagnitude := magnitudeOf_unpack b
  rw [h] at hmagnitude
  have hmod : b.toNat % 2 ^ 52 < 2 ^ 52 := Nat.mod_lt _ (by decide)
  have hmod' : b.toNat / 2 ^ 52 % 2 ^ 11 < 2 ^ 11 := Nat.mod_lt _ (by decide)
  split at hmagnitude
  · split at hmagnitude <;> cases hmagnitude
  · split at hmagnitude
    · obtain ⟨rfl, rfl⟩ := Magnitude.finite.inj hmagnitude
      exact ⟨by omega, by omega, by omega, .inr rfl⟩
    · obtain ⟨rfl, rfl⟩ := Magnitude.finite.inj hmagnitude
      exact ⟨by omega, by omega, by omega, .inl (by omega)⟩

theorem fits_of_parts {x : Float} {s : Sign} {m : Nat} {e : Int} {hm : 0 < m}
    (h : parts x = .finite s m e hm) : Fits m e := fits_of_unpack h

theorem sign_of_unpack {b : BitVec Format.binary64.numBits} {s : Sign} {m : Nat} {e : Int}
    {hm : 0 < m}
    (h : UnpackedFloat.unpack .binary64 b = .finite s m e hm) :
    s = Sign.ofBitVec (unpackSign b) := by
  unfold UnpackedFloat.unpack at h
  dsimp only at h
  split at h
  · split at h <;> cases h
  · split at h
    · split at h
      · cases h
      · exact (UnpackedFloat.finite.inj h).1.symm
    · exact (UnpackedFloat.finite.inj h).1.symm

theorem ofBitVec_beq_negative (v : BitVec 1) :
    (Sign.ofBitVec v == .negative) = (v.toNat == 1) := by
  decide +revert

theorem isNegative_of_parts {x : Float} {s : Sign} {m : Nat} {e : Int} {hm : 0 < m}
    (h : parts x = .finite s m e hm) : isNegative x = (s == .negative) := by
  have hlt := x.toModel.toBits.toNat_lt
  unfold isNegative
  rw [sign_of_unpack h, ofBitVec_beq_negative, toNat_unpackSign, Bool.eq_iff_iff, beq_iff_eq,
    beq_iff_eq, ← UInt64.toNat_inj, UInt64.toNat_shiftRight]
  show x.toModel.toBits.toNat >>> 63 = 1 ↔ x.toModel.toBits.toNat / 2 ^ 63 % 2 = 1
  rw [Nat.shiftRight_eq_div_pow]
  omega

/-! ## Putting together -/

/-- An exponent in between is found again, with a mantissa that has its first bit. -/
theorem unpack_packComponents (s : Sign) {m e : Nat} (hlow : 2 ^ 52 ≤ m) (hhigh : m < 2 ^ 53)
    (hpos : 0 < e) (he : e < 2047) :
    UnpackedFloat.unpack .binary64
        (packComponents .binary64 s (BitVec.ofNat 11 e) (BitVec.ofNat 52 m)) =
      .finite s m (e - 1075) (Nat.lt_of_lt_of_le (by decide) hlow) := by
  have hne {n : Nat} (hn : n < 2 ^ 11) (h : e ≠ n) : BitVec.ofNat 11 e ≠ BitVec.ofNat 11 n := by
    rw [Ne, ← BitVec.toNat_inj, BitVec.toNat_ofNat, BitVec.toNat_ofNat, Nat.mod_eq_of_lt hn,
      Nat.mod_eq_of_lt (by omega)]
    exact h
  have hinfinite : BitVec.ofNat 11 e ≠ -1#11 := hne (n := 2047) (by decide) (by omega)
  have hzero : BitVec.ofNat 11 e ≠ 0#11 := hne (n := 0) (by decide) (by omega)
  have hmantissa : (1#1 ++ BitVec.ofNat 52 m).toNat = m := by
    rw [toNat_one_append, BitVec.toNat_ofNat]
    omega
  unfold UnpackedFloat.unpack
  simp only [unpackMantissa_packComponents, unpackExponent_packComponents,
    unpackSign_packComponents, Sign.ofBitVec_toBitVec]
  rw [if_neg hinfinite, if_neg hzero]
  congr 1
  rw [BitVec.toNat_ofNat, Nat.mod_eq_of_lt (by omega)]
  rfl

/-- With the least exponent a mantissa is taken as it is. -/
theorem unpack_packComponents_zero (s : Sign) {m : Nat} (hm : 0 < m) (hlt : m < 2 ^ 52) :
    UnpackedFloat.unpack .binary64 (packComponents .binary64 s 0#11 (BitVec.ofNat 52 m)) =
      .finite s m (-1074) hm := by
  have hmantissa : (BitVec.ofNat 52 m).toNat = m := by
    rw [BitVec.toNat_ofNat, Nat.mod_eq_of_lt hlt]
  have hne : BitVec.ofNat 52 m ≠ 0#52 := by
    rw [Ne, ← BitVec.toNat_inj, hmantissa]
    exact Nat.pos_iff_ne_zero.1 hm
  unfold UnpackedFloat.unpack
  simp only [unpackMantissa_packComponents, unpackExponent_packComponents,
    unpackSign_packComponents, Sign.ofBitVec_toBitVec]
  rw [if_neg (by decide), if_pos trivial, dif_neg hne]
  congr 1

/-- Parts that fit are found again. -/
theorem parts_ofParts {s : Sign} {m : Nat} {e : Int} (hm : 0 < m) (h : Fits m e) :
    parts (ofParts (.finite s m e hm)) = .finite s m e hm := by
  obtain ⟨hlt, hleast, hgreatest, hfull⟩ := h
  have hbias : e + (Format.binary64.exponentBias : Int) +
      Format.binary64.mantissaBitsWithoutImplicit = e + 1075 := by
    show e + (1023 : Nat) + (52 : Nat) = _
    omega
  have hne := Nat.pos_iff_ne_zero.1 hm
  show UnpackedFloat.unpack .binary64 (UnpackedFloat.pack .binary64 (.finite s m e hm)) = _
  unfold UnpackedFloat.pack
  dsimp only
  rw [hbias, if_neg (show ¬ 2 ^ 11 ≤ (e + 1075).toNat + 1 by omega)]
  split
  · rename_i hlog
    replace hlog : m.log2 + 1 = 53 := hlog
    have hlow : 2 ^ 52 ≤ m := (Nat.le_log2 hne).1 (by omega)
    refine (unpack_packComponents s hlow hlt (by omega) (by omega)).trans ?_
    congr 1
    omega
  · rename_i hlog
    replace hlog : ¬ m.log2 + 1 = 53 := hlog
    have hlog2 := (Nat.log2_lt hne).2 hlt
    have hsmall : m < 2 ^ 52 := (Nat.log2_lt hne).1 (by omega)
    obtain rfl := hfull.resolve_left (by omega)
    exact unpack_packComponents_zero s hm hsmall

end Archipelago.Decimal
