import Archipelago.Proofs.Decimal.Shortest
import Archipelago.Proofs.Decimal.Whole
import Archipelago.Proofs.Json.Reading
import Archipelago.Value
import Mathlib.Data.List.DropRight

/-!
# Texts of numbers that are read back

The text of a finite number that is not written as a whole one is digits with a point or with an
exponent, so it is read as a number again, if not always the same one: its digits are taken as long
as they fit 64 bits, and what has been taken can be scaled.
-/

namespace Archipelago.Json

open Decimal

/-! ## Digits -/

/-- Digits that do not start with a zero. -/
structure Significant (ds : Chars) : Prop where
  digits : ∀ c ∈ ds, c.isDigit = true
  ne_nil : ds ≠ []
  head_ne : ds.head? ≠ some '0'

theorem dropZeros_begins (cs : Chars) : dropZeros cs <+: cs := List.rdropWhile_prefix _ _

theorem significant_dropZeros {n : Nat} (h : 0 < n) :
    Significant (dropZeros (Nat.toDigits 10 n)) := by
  obtain ⟨zs, hzs⟩ := dropZeros_begins (Nat.toDigits 10 n)
  have hhead := Number.head?_toDigits h
  have hne : dropZeros (Nat.toDigits 10 n) ≠ [] := by
    intro hnil
    have hall := List.rdropWhile_eq_nil_iff.1 hnil
    cases hdigits : Nat.toDigits 10 n with
    | nil => exact Nat.toDigits_ne_nil hdigits
    | cons d ds =>
      rw [hdigits] at hhead hall
      exact hhead (congrArg some (of_decide_eq_true (hall d List.mem_cons_self)))
  refine ⟨fun c hc => ?_, hne, ?_⟩
  · exact Nat.isDigit_of_mem_toDigits (by decide) (by decide)
      ((dropZeros_begins _).subset hc)
  · rwa [← hzs, List.head?_append_of_ne_nil _ hne] at hhead

theorem digit_le {c : Char} (h : c.isDigit = true) : c.toNat - '0'.toNat ≤ 9 := by
  have h9 : c.toNat ≤ 57 := by
    simp only [Char.isDigit, Bool.and_eq_true, decide_eq_true_eq] at h
    exact UInt32.le_iff_toNat_le.1 h.2
  show c.toNat - 48 ≤ 9
  omega

theorem digit_pos {c : Char} (h : c.isDigit = true) (hne : c ≠ '0') : 0 < c.toNat - '0'.toNat := by
  have h0 : 48 ≤ c.toNat := by
    simp only [Char.isDigit, Bool.and_eq_true, decide_eq_true_eq] at h
    exact UInt32.le_iff_toNat_le.1 h.1
  have hne : c.toNat ≠ 48 := fun he => hne (Char.toNat_inj.1 he)
  show 0 < c.toNat - 48
  omega

theorem ofDigitChars_lt {ds : Chars} (h : ∀ c ∈ ds, c.isDigit = true) :
    Nat.ofDigitChars 10 ds 0 < 10 ^ ds.length := by
  induction ds with
  | nil => decide
  | cons c cs ih =>
    obtain ⟨hc, hcs⟩ := List.forall_mem_cons.1 h
    have hrest := ih hcs
    have hdigit := Nat.mul_le_mul_left (10 ^ cs.length) (digit_le hc)
    rw [Nat.ofDigitChars_cons, Nat.mul_zero, Nat.zero_add, Nat.ofDigitChars_eq_ofDigitChars_zero,
      List.length_cons, Nat.pow_succ]
    omega

theorem digitsValue_eq (ds : Chars) : digitsValue ds = Nat.ofDigitChars 10 ds 0 := by
  rw [Nat.ofDigitChars_eq_foldl, digitsValue]
  simp only [Nat.mul_comm]
  rfl

namespace Number

/-!
## Significands that can be scaled

A significand is scaled to a finite number if no more than the digits of a finite number have been
taken into it. Rounding keeps the order, so it is enough to look at the largest significand for each
power of ten.
-/

/-- The end of the rounding interval of the greatest number but one. -/
def greatest : Nat := (2 ^ 54 - 3) * 2 ^ 970

theorem greatest_lt : greatest < 10 ^ (largestPower + 1) := by decide +kernel

/-- The digits of a number that is not the greatest one stand for no more than this. -/
theorem high_le_greatest {m : Nat} {e : Int} (h : Fits m e) (hne : ¬(m = 2 ^ 53 - 1 ∧ e = 971)) :
    (Rounding.ofBinary m e).high ≤ greatest * (Rounding.ofBinary m e).unit := by
  obtain ⟨hlt, -, he, -⟩ := h
  have hscale {j : Nat} (hm : 4 * m + 2 ≤ (2 ^ 54 - 3) * 2 ^ j) (hj : j + (e - 2).toNat ≤ 970) :
      (4 * m + 2) * 2 ^ (e - 2).toNat ≤ greatest := by
    refine Nat.le_trans (Nat.mul_le_mul_right _ hm) ?_
    rw [Nat.mul_assoc, ← Nat.pow_add]
    exact Nat.mul_le_mul_left _ (pow_le_pow_right₀ (by decide) hj)
  show (4 * m + 2) * 2 ^ (e - 2).toNat ≤ greatest * 2 ^ (2 - e).toNat
  refine Nat.le_trans ?_ (Nat.le_mul_of_pos_right _ (Nat.two_pow_pos _))
  by_cases hlast : e = 971
  · exact hscale (j := 1) (by omega) (by omega)
  · exact hscale (j := 2) (by omega) (by omega)

/-! ## Powers of ten -/

theorem toNearest_powerOfTen_lt {e : Nat} (he : e ≤ largestPower) : toNearest (10 ^ e) < bound := by
  have hlargest : toNearest (10 ^ largestPower) < bound := by decide +kernel
  exact Nat.lt_of_le_of_lt (toNearest_mono (pow_le_pow_right₀ (by decide) he)) hlargest

/-- A power of ten is the exact one rounded. -/
theorem holds_powerOfTen {e : Nat} (he : e ≤ largestPower) :
    Holds (powerOfTen e) .positive (toNearest (10 ^ e)) := by
  have hsmall : ∀ e < 23, integer? (powerOfTen e) = some ((toNearest (10 ^ e) : Nat) : Int) := by
    decide +kernel
  by_cases h : e < 23
  · have hpos := toNearest_pos (Nat.pow_pos (a := 10) (n := e) (by decide))
    obtain ⟨hzero, -⟩ | ⟨-, hx⟩ | ⟨hneg, -⟩ := parts_of_integer? (hsmall e h)
    · omega
    · exact hx
    · omega
  · have hsize : e ≤ 2048 := Nat.le_trans he (by decide)
    have hmade := holds_ofScientific (n := 1) (e := e) Nat.one_pos (by omega) hsize
      (by rw [Nat.one_mul]; exact toNearest_powerOfTen_lt he)
    rwa [Nat.one_mul] at hmade

theorem isFinite_of_holds {x : Float} {s : Float.Model.UnpackedFloat.Sign} {n : Nat}
    (h : Holds x s n) : isFinite x = true := by
  obtain ⟨m, e, hm, hparts, -⟩ := h
  rw [isFinite, magnitude_eq, hparts]
  rfl

/-- Rounded and then scaled, a significand of 64 bits stays finite if the exact product is not too
large. -/
theorem scaled_lt_bound {n e : Nat} (hn : n < 2 ^ 64) (he : e ≤ largestPower)
    (h : n * 10 ^ e ≤ greatest) :
    toNearest (toNearest n * toNearest (10 ^ e)) < bound := by
  -- below this power of ten every significand is small enough
  have hall : ∀ i < 25, toNearest (toNearest (min (2 ^ 64 - 1)
      (greatest / 10 ^ (largestPower - 24 + i))) * toNearest (10 ^ (largestPower - 24 + i))) <
        bound := by decide +kernel
  by_cases hlarge : largestPower - 24 ≤ e
  · obtain ⟨i, rfl⟩ := Nat.exists_eq_add_of_le hlarge
    refine Nat.lt_of_le_of_lt (toNearest_mono (Nat.mul_le_mul_right _ (toNearest_mono ?_)))
      (hall i (by omega))
    exact Nat.le_min.2 ⟨Nat.le_sub_one_of_lt hn,
      (Nat.le_div_iff_mul_le (Nat.pow_pos (by decide))).2 h⟩
  · have hfirst : min (2 ^ 64 - 1) (greatest / 10 ^ (largestPower - 24)) = 2 ^ 64 - 1 := by
      decide +kernel
    have hmax := hall 0 (by decide)
    rw [Nat.add_zero, hfirst] at hmax
    refine Nat.lt_of_le_of_lt (toNearest_mono (Nat.mul_le_mul ?_ ?_)) hmax
    · exact toNearest_mono (Nat.le_sub_one_of_lt hn)
    · exact toNearest_mono (Nat.pow_le_pow_right (by decide) (by omega))

/-! ## Scaling -/

theorem exists_scale_of_neg (n : Nat) {e : Int} (he : e < 0) : ∃ x, scale n e = some x := by
  unfold scale
  dsimp only
  rw [if_neg (by omega)]
  split
  · exact ⟨_, rfl⟩
  · split
    · exact ⟨_, rfl⟩
    · split
      · exact ⟨_, rfl⟩
      · exact ⟨_, rfl⟩

theorem exists_scale {n : Nat} {e : Int} (he : 0 ≤ e) (hpos : 0 < n) (hn : n < 2 ^ 64)
    (h : n * 10 ^ e.toNat ≤ greatest) : ∃ x, scale n e = some x := by
  have hexponent : e.toNat ≤ largestPower := by
    by_contra hlarge
    have hle : 10 ^ (largestPower + 1) ≤ 10 ^ e.toNat :=
      Nat.pow_le_pow_right (by decide) (Nat.lt_of_not_le hlarge)
    have := Nat.le_mul_of_pos_left (10 ^ e.toNat) hpos
    exact absurd greatest_lt (Nat.not_lt.2 (Nat.le_trans hle (Nat.le_trans this h)))
  have hword : toNearest n < bound := by
    have hlargest : toNearest (2 ^ 64 - 1) < bound := by decide +kernel
    exact Nat.lt_of_le_of_lt (toNearest_mono (Nat.le_sub_one_of_lt hn)) hlargest
  have hproduct := (holds_ofNat hpos hword).mul (holds_powerOfTen hexponent) (toNearest_pos hpos)
    (toNearest_pos (Nat.pow_pos (by decide))) (scaled_lt_bound hn hexponent h)
  refine ⟨Float.ofNat n * powerOfTen e.toNat, ?_⟩
  unfold scale
  dsimp only
  rw [if_pos he, if_pos (by omega), if_pos (isFinite_of_holds hproduct)]

/-! ## Texts -/

/-- Digits, a point with digits behind it, and an exponent, where there are any. -/
def layOut (whole : Chars) (frac : Option Chars) (exp : Option Int) : Chars :=
  whole ++ ((frac.map ('.' :: ·)).getD [] ++
    (exp.map fun e => 'e' :: (if e < 0 then '-' else '+') :: Nat.toDigits 10 e.natAbs).getD [])

theorem digits_append_of_all {ds rest : Chars} (h : ∀ c ∈ ds, c.isDigit = true)
    (hrest : digits rest = ([], rest)) : digits (ds ++ rest) = (ds, rest) := by
  obtain ⟨htake, hdrop⟩ := Prod.mk.inj hrest
  unfold digits
  rw [List.takeWhile_append_of_pos h, List.dropWhile_append_of_pos h, htake, hdrop, List.append_nil]

theorem optionalExponent_layOut (exp : Option Int) :
    optionalExponent (layOut [] none exp) = some (exp, []) := by
  cases exp with
  | none => rfl
  | some e =>
    have hdigits : digits (Nat.toDigits 10 e.natAbs) = (Nat.toDigits 10 e.natAbs, []) := by
      have hends : Ends [] := True.intro
      have happend := digits_toDigits e.natAbs hends
      rwa [List.append_nil] at happend
    have hread (negative : Bool) : exponentDigits negative (Nat.toDigits 10 e.natAbs) =
        some (if negative then -(e.natAbs : Int) else e.natAbs, []) := by
      unfold exponentDigits
      rw [hdigits, if_neg, digitsValue_eq, Nat.ofDigitChars_ten_toDigits]
      rw [List.isEmpty_iff]
      exact Nat.toDigits_ne_nil
    show (exponent ((if e < 0 then '-' else '+') :: Nat.toDigits 10 e.natAbs)).map _ = _
    rw [exponent_cons]
    by_cases he : e < 0
    · rw [if_pos he, if_neg (by decide), if_pos rfl, hread, if_pos rfl]
      show some (some _, _) = _
      rw [Int.ofNat_natAbs_of_nonpos (Int.le_of_lt he), Int.neg_neg]
    · rw [if_neg he, if_pos rfl, hread, if_neg Bool.false_ne_true]
      show some (some _, _) = _
      rw [Int.natAbs_of_nonneg (Int.not_lt.1 he)]

theorem digits_layOut (frac : Option Chars) (exp : Option Int) :
    digits (layOut [] frac exp) = ([], layOut [] frac exp) := by
  cases frac with
  | none => cases exp <;> rfl
  | some f => rfl

theorem fraction_layOut {frac : Option Chars} (exp : Option Int)
    (hfrac : ∀ f ∈ frac, (∀ c ∈ f, c.isDigit = true) ∧ f ≠ []) :
    fraction (layOut [] frac exp) = some (frac, layOut [] none exp) := by
  cases frac with
  | none => cases exp <;> rfl
  | some f =>
    obtain ⟨hf, hne⟩ := hfrac f rfl
    show fraction ('.' :: (f ++ layOut [] none exp)) = _
    have hdigits := digits_append_of_all hf (digits_layOut none exp)
    change (if (digits (f ++ layOut [] none exp)).1.isEmpty = true then none
      else some (some (digits (f ++ layOut [] none exp)).1,
      (digits (f ++ layOut [] none exp)).2)) = _
    rw [hdigits, if_neg]
    rw [List.isEmpty_iff]
    exact hne

/-- What is laid out is read as the value of its parts. -/
theorem unsigned_layOut (negative : Bool) {whole : Chars} {frac : Option Chars} (exp : Option Int)
    (hwhole : ∀ c ∈ whole, c.isDigit = true) (hne : whole ≠ [])
    (hhead : whole.head? = some '0' → whole.length = 1)
    (hfrac : ∀ f ∈ frac, (∀ c ∈ f, c.isDigit = true) ∧ f ≠ []) :
    unsigned negative (layOut whole frac exp) = some (value negative whole frac exp, []) := by
  have hlead :
      (whole.isEmpty || (decide (whole.head? = some '0') && whole.length != 1)) = false := by
    rw [List.isEmpty_eq_false_iff.2 hne, Bool.false_or, Bool.and_eq_false_imp, decide_eq_true_iff]
    intro hzero
    rw [hhead hzero]
    rfl
  show unsigned negative (whole ++ layOut [] frac exp) = _
  unfold unsigned
  rw [digits_append_of_all hwhole (digits_layOut frac exp)]
  dsimp only
  rw [hlead, if_neg Bool.false_ne_true, fraction_layOut exp hfrac]
  show (optionalExponent (layOut [] none exp)).bind _ = _
  rw [optionalExponent_layOut]
  rfl

/-- Of a run of digits those at the front are taken, as long as they fit. -/
theorem gather_take (ds : Chars) {sig : Nat} (taken : Nat) (h : sig < 2 ^ 64) :
    ∃ n ≤ ds.length, gather sig taken ds =
        (Nat.ofDigitChars 10 (ds.take n) sig, taken + n, ds.drop n) ∧
      Nat.ofDigitChars 10 (ds.take n) sig < 2 ^ 64 := by
  induction ds generalizing sig taken with
  | nil => exact ⟨0, Nat.le_refl _, rfl, h⟩
  | cons c cs ih =>
    rw [gather]
    split
    · rename_i hfits
      obtain ⟨n, hn, hgather, hlt⟩ := ih (taken + 1) (of_decide_eq_true hfits)
      have hnext : sig * 10 + (c.toNat - 48) = 10 * sig + (c.toNat - '0'.toNat) := by
        rw [Nat.mul_comm]
        rfl
      refine ⟨n + 1, Nat.succ_le_succ hn, ?_, ?_⟩
      · rw [hgather, List.take_succ_cons, List.drop_succ_cons, Nat.ofDigitChars_cons, hnext,
          Nat.add_right_comm, Nat.add_assoc]
      · rwa [List.take_succ_cons, Nat.ofDigitChars_cons, ← hnext]
    · exact ⟨0, Nat.zero_le _, rfl, h⟩

/-- A number is read if its significand can be scaled. -/
theorem exists_value (negative : Bool) {whole : Chars} {frac : Option Chars} {exp : Option Int}
    {first sig : Nat} {seen taken : Nat} {left : Chars} (hparts : frac.isSome ∨ exp.isSome)
    (hwhole : gather 0 0 whole = (first, seen, []))
    (hfrac : gather first 0 (frac.getD []) = (sig, taken, left))
    (hscale : ∃ x, scale sig (exp.getD 0 - taken) = some x) :
    ∃ y, value negative whole frac exp = .float y := by
  obtain ⟨x, hx⟩ := hscale
  have hform : (frac.isNone && exp.isNone && ([] : Chars).isEmpty) = false := by
    cases frac with
    | some f => rfl
    | none =>
      cases exp with
      | some e => rfl
      | none => rcases hparts with h | h <;> cases h
  have hexp : ((0 : Nat) : Int) - taken + exp.getD 0 = exp.getD 0 - taken := by omega
  refine ⟨if negative then -x else x, ?_⟩
  unfold value
  rw [hwhole]
  dsimp only
  rw [hfrac]
  dsimp only
  rw [hform, if_neg Bool.false_ne_true, List.length_nil, hexp, hx]

/-- With a point, the last digit that is taken makes the power of ten a negative one. -/
theorem exists_float_of_point (negative : Bool) {whole frac : Chars}
    (hwhole : ∀ c ∈ whole, c.isDigit = true) (hne : whole ≠ [])
    (hhead : whole.head? = some '0' → whole.length = 1) (hlength : whole.length ≤ 16)
    (hfrac : ∀ c ∈ frac, c.isDigit = true) (hfne : frac ≠ []) :
    ∃ y, unsigned negative (layOut whole (some frac) none) = some (.float y, []) := by
  have hfirst : Nat.ofDigitChars 10 whole 0 < 10 ^ 16 :=
    Nat.lt_of_lt_of_le (ofDigitChars_lt hwhole) (Nat.pow_le_pow_right (by decide) hlength)
  obtain ⟨c, cs, rfl⟩ := List.exists_cons_of_ne_nil hfne
  have hdigit := digit_le (hfrac c List.mem_cons_self)
  have hnext : Nat.ofDigitChars 10 whole 0 * 10 + (c.toNat - 48) < 2 ^ 64 := by
    have hdigit : c.toNat - 48 ≤ 9 := hdigit
    omega
  have hfits : fits (Nat.ofDigitChars 10 whole 0 * 10 + (c.toNat - 48)) = true :=
    decide_eq_true hnext
  obtain ⟨n, -, hgather, -⟩ := gather_take cs 1 hnext
  have htaken : gather (Nat.ofDigitChars 10 whole 0) 0 ((some (c :: cs)).getD []) = _ :=
    (if_pos hfits).trans hgather
  have hnegative : (none : Option Int).getD 0 - (1 + n : Nat) < 0 := by
    rw [Option.getD_none]
    omega
  obtain ⟨y, hy⟩ := exists_value negative (.inl (rfl : (some (c :: cs)).isSome = true))
    (gather_eq whole 0 0 (Nat.lt_trans hfirst (by decide))) htaken (exists_scale_of_neg _ hnegative)
  refine ⟨y, ?_⟩
  rw [unsigned_layOut negative none hwhole hne hhead, hy]
  rintro f ⟨⟩
  exact ⟨hfrac, hfne⟩

/-- With an exponent, it is enough that whatever digits are taken can be scaled. -/
theorem exists_float_of_exponent (negative : Bool) {c : Char} {cs : Chars} {e : Int}
    (h : Significant (c :: cs))
    (hbound : ∀ n ≤ cs.length, 0 ≤ e - n →
      Nat.ofDigitChars 10 ((c :: cs).take (n + 1)) 0 * 10 ^ (e - n).toNat ≤ greatest) :
    ∃ y, unsigned negative (layOut [c] (if cs = [] then none else some cs) (some e)) =
      some (.float y, []) := by
  obtain ⟨hdigits, -, hhead⟩ := h
  obtain ⟨hc, hcs⟩ := List.forall_mem_cons.1 hdigits
  have hfirst : Nat.ofDigitChars 10 [c] 0 = c.toNat - '0'.toNat := by
    rw [Nat.ofDigitChars_cons, Nat.ofDigitChars_nil, Nat.mul_zero, Nat.zero_add]
  have hsmall := digit_le hc
  have hpos := digit_pos hc fun he => hhead (congrArg some he)
  have hword : c.toNat - '0'.toNat < 2 ^ 64 := by omega
  obtain ⟨n, hn, hgather, hlt⟩ := gather_take cs 0 hword
  have hfrac : (if cs = [] then none else some cs).getD [] = cs := by
    split
    · rename_i hnil
      exact hnil.symm
    · rfl
  have hsig : Nat.ofDigitChars 10 ((c :: cs).take (n + 1)) 0 =
      Nat.ofDigitChars 10 (cs.take n) (c.toNat - '0'.toNat) := by
    rw [List.take_succ_cons, Nat.ofDigitChars_cons, Nat.mul_zero, Nat.zero_add]
  have hscale : ∃ x, scale (Nat.ofDigitChars 10 (cs.take n) (c.toNat - '0'.toNat))
      ((some e).getD 0 - (0 + n : Nat)) = some x := by
    rw [Option.getD_some, Nat.zero_add]
    by_cases he : 0 ≤ e - n
    · exact exists_scale he (Nat.lt_of_lt_of_le hpos (le_ofDigitChars _ _)) hlt
        (hsig ▸ hbound n hn he)
    · exact exists_scale_of_neg _ (Int.not_le.1 he)
  have hwhole := gather_eq [c] 0 0 (by omega)
  rw [hfirst] at hwhole
  obtain ⟨y, hy⟩ := exists_value negative (.inr (rfl : (some e).isSome = true)) hwhole
    (by rw [hfrac]; exact hgather) hscale
  refine ⟨y, ?_⟩
  rw [unsigned_layOut negative (some e), hy]
  · exact List.forall_mem_singleton.2 hc
  · exact List.cons_ne_nil _ _
  · exact fun _ => rfl
  · intro f hf
    split at hf
    · cases hf
    · rename_i hne
      obtain rfl := Option.some.inj hf
      exact ⟨hcs, hne⟩

/-! ## Layouts -/

/-- Written with a point, digits that start no further in front of it are read. -/
theorem exists_float_of_place (negative : Bool) {ds : Chars} (h : Significant ds) {e : Int}
    (he : e ≤ 15) : ∃ y, unsigned negative (Layout.json.place ds e) = some (.float y, []) := by
  obtain ⟨hdigits, hne, hhead⟩ := h
  have hzeros {n : Nat} : ∀ c ∈ List.replicate n '0', c.isDigit = true := fun c hc =>
    List.eq_of_mem_replicate hc ▸ rfl
  unfold Layout.place
  split
  · have hzero : ∀ c ∈ ['0'], c.isDigit = true := List.forall_mem_singleton.2 rfl
    have hfrac : ∀ c ∈ List.replicate ((-e).toNat - 1) '0' ++ ds, c.isDigit = true :=
      List.forall_mem_append.2 ⟨hzeros, hdigits⟩
    have hread := exists_float_of_point negative hzero (List.cons_ne_nil _ _) (fun _ => rfl)
      (by decide) hfrac (List.append_ne_nil_of_right_ne_nil _ hne)
    rwa [layOut, Option.map_none, Option.getD_none, List.append_nil] at hread
  · dsimp only
    generalize hwhole :
      ds.take (e.toNat + 1) ++ List.replicate (e.toNat + 1 - ds.length) '0' = whole
    have hlength : whole.length = e.toNat + 1 := by
      rw [← hwhole, List.length_append, List.length_take, List.length_replicate]
      omega
    have hall : ∀ c ∈ whole, c.isDigit = true := by
      rw [← hwhole]
      exact List.forall_mem_append.2 ⟨fun c hc => hdigits c (List.mem_of_mem_take hc), hzeros⟩
    have hfirst : whole.head? ≠ some '0' := by
      obtain ⟨d, ds, rfl⟩ := List.exists_cons_of_ne_nil hne
      rw [← hwhole, List.take_succ_cons]
      exact hhead
    have hread {frac : Chars} (hfrac : ∀ c ∈ frac, c.isDigit = true) (hfne : frac ≠ []) :
        ∃ y, unsigned negative (whole ++ '.' :: frac) = some (.float y, []) := by
      have hpoint := exists_float_of_point negative hall
        (List.ne_nil_of_length_eq_add_one hlength) (fun hzero => absurd hzero hfirst) (by omega)
        hfrac hfne
      rwa [layOut, Option.map_none, Option.getD_none, List.append_nil] at hpoint
    split
    · have hzero : ∀ c ∈ ['0'], c.isDigit = true := List.forall_mem_singleton.2 rfl
      exact hread hzero (List.cons_ne_nil _ _)
    · rename_i hdrop
      rw [List.append_assoc]
      exact hread (fun c hc => hdigits c (List.mem_of_mem_drop hc)) hdrop

theorem scientific_eq (c : Char) (cs : Chars) (e : Int) :
    Layout.json.scientific (c :: cs) e =
      layOut [c] (if cs = [] then none else some cs) (some e) := by
  have hsign : (if e < 0 then ['-'] else ['+']) = [if e < 0 then '-' else '+'] := by
    split <;> rfl
  cases cs with
  | nil =>
    show [c] ++ ['e'] ++ (if e < 0 then ['-'] else ['+']) ++ _ = _
    rw [hsign]
    rfl
  | cons d ds =>
    show c :: '.' :: d :: ds ++ ['e'] ++ (if e < 0 then ['-'] else ['+']) ++ _ = _
    rw [hsign, if_neg (List.cons_ne_nil d ds)]
    simp [layOut]

/-- The digits that are taken of a number that is written with an exponent can be scaled. As many
digits are left out as the exponent is larger. -/
theorem taken_le_greatest {m : Nat} {e : Int} (h : Fits m e) (hne : ¬(m = 2 ^ 53 - 1 ∧ e = 971))
    {d n : Nat} {k : Int} (hcovers : (Rounding.ofBinary m e).Covers d k) {ds : Chars}
    (hds : ds <+: Nat.toDigits 10 d) (hn : n < ds.length)
    (hexp : 0 ≤ k + (Nat.toDigits 10 d).length - 1 - n) :
    Nat.ofDigitChars 10 (ds.take (n + 1)) 0 *
      10 ^ (k + (Nat.toDigits 10 d).length - 1 - n).toNat ≤ greatest := by
  obtain ⟨zs, hzs⟩ := hds
  have hlength := congrArg List.length hzs
  rw [List.length_append] at hlength
  have hleft : Nat.ofDigitChars 10 (ds.take (n + 1)) 0 *
      10 ^ ((Nat.toDigits 10 d).length - 1 - n) ≤ d := by
    have hsplit : ds.take (n + 1) ++ (ds.drop (n + 1) ++ zs) = Nat.toDigits 10 d := by
      rw [← List.append_assoc, List.take_append_drop, hzs]
    have hvalue := @Nat.ofDigitChars_ten_toDigits d
    have hrest : (ds.drop (n + 1) ++ zs).length = (Nat.toDigits 10 d).length - 1 - n := by
      rw [List.length_append, List.length_drop]
      omega
    rw [← hsplit, Nat.ofDigitChars_append, Nat.ofDigitChars_eq_ofDigitChars_zero, hrest,
      Nat.mul_comm] at hvalue
    omega
  have hshift : k + ((Nat.toDigits 10 d).length - 1 - n : Nat) =
      k + (Nat.toDigits 10 d).length - 1 - n := by omega
  have hshifted := hcovers.of_mul_le hleft
  rw [hshift] at hshifted
  have hzero : (-(k + (Nat.toDigits 10 d).length - 1 - n)).toNat = 0 := by omega
  unfold Rounding.Covers at hshifted
  simp only [pow10, Nat.pow_eq] at hshifted
  rw [hzero, Nat.pow_zero, Nat.mul_one] at hshifted
  refine Nat.le_of_mul_le_mul_right (Nat.le_trans hshifted (high_le_greatest h hne)) ?_
  exact Nat.two_pow_pos _

/-- Whether a text has been read to its end, as a number that is not whole. -/
def endsInFloat : Option (Json × Chars) → Bool
  | some (.float _, []) => true
  | _ => false

theorem exists_of_endsInFloat {r : Option (Json × Chars)} (h : endsInFloat r = true) :
    ∃ y, r = some (.float y, []) := by
  unfold endsInFloat at h
  split at h
  · exact ⟨_, rfl⟩
  · cases h

/-- The greatest number is read from its text as well. -/
theorem exists_float_of_greatest (negative : Bool) :
    ∃ y, unsigned negative (Layout.json.magnitudeChars (.finite (2 ^ 53 - 1) 971)) =
      some (.float y, []) := by
  have hread : ∀ negative, endsInFloat
      (unsigned negative (Layout.json.magnitudeChars (.finite (2 ^ 53 - 1) 971))) = true := by
    decide +kernel
  exact exists_of_endsInFloat (hread negative)

theorem magnitudeChars_json {m : Nat} (hm : m ≠ 0) (e : Int) {d : Nat} {k : Int}
    (h : shortest .even m e = ⟨d, k⟩) :
    Layout.json.magnitudeChars (.finite m e) =
      if -5 ≤ k + (Nat.toDigits 10 d).length - 1 && k + (Nat.toDigits 10 d).length - 1 ≤ 15 then
        Layout.json.place (dropZeros (Nat.toDigits 10 d)) (k + (Nat.toDigits 10 d).length - 1)
      else
        Layout.json.scientific (dropZeros (Nat.toDigits 10 d))
          (k + (Nat.toDigits 10 d).length - 1) := by
  have hshortest : shortest Layout.json.tie m e = ⟨d, k⟩ := h
  unfold Layout.magnitudeChars
  dsimp only
  rw [if_neg hm, hshortest]
  rfl

/-- The text of a finite number that is not zero is read as a number. -/
theorem exists_float_of_magnitude (negative : Bool) {m : Nat} {e : Int} (hm : 0 < m)
    (h : Fits m e) :
    ∃ y, unsigned negative (Layout.json.magnitudeChars (.finite m e)) = some (.float y, []) := by
  by_cases hlast : m = 2 ^ 53 - 1 ∧ e = 971
  · obtain ⟨rfl, rfl⟩ := hlast
    exact exists_float_of_greatest negative
  · obtain ⟨hpos, hcovers⟩ := shortest_spec .even hm e
    generalize hshortest : shortest .even m e = found at hpos hcovers
    obtain ⟨d, k⟩ := found
    have hsignificant := significant_dropZeros hpos
    rw [magnitudeChars_json (Nat.pos_iff_ne_zero.1 hm) e hshortest]
    split
    · rename_i hplace
      exact exists_float_of_place negative hsignificant
        (of_decide_eq_true (Bool.and_eq_true_iff.1 hplace).2)
    · obtain ⟨c, cs, hds⟩ := List.exists_cons_of_ne_nil hsignificant.ne_nil
      have hbegins := dropZeros_begins (Nat.toDigits 10 d)
      rw [hds] at hsignificant hbegins ⊢
      rw [scientific_eq]
      exact exists_float_of_exponent negative hsignificant fun n hn hexp =>
        taken_le_greatest h hlast hcovers hbegins (Nat.lt_succ_of_le hn) hexp

theorem read_of_unsigned {cs : Chars} {r : Json × Chars} (h : unsigned false cs = some r) :
    read cs = some r := by
  cases cs with
  | nil => cases h
  | cons c cs =>
    rw [read_cons, if_neg]
    · exact h
    · rintro rfl
      cases h

end Number

/-- The text of a number that is neither a zero nor without an end is read as a number. -/
theorem read_format {x : Float} {s : Float.Model.UnpackedFloat.Sign} {m : Nat} {e : Int}
    {hm : 0 < m}
    (h : parts x = .finite s m e hm) :
    ∃ y, Number.read (Layout.json.format x).toList = some (.float y, []) := by
  have hmagnitude : magnitude x = .finite m e := by
    rw [magnitude_eq, h]
    rfl
  have hnan : (Magnitude.finite m e != .nan) = true := rfl
  obtain ⟨y, hy⟩ := Number.exists_float_of_magnitude (s == .negative) hm (fits_of_parts h)
  unfold Layout.format
  dsimp only
  rw [String.toList_ofList, hmagnitude, isNegative_of_parts h, hnan, Bool.and_true]
  cases s with
  | negative => exact ⟨y, hy⟩
  | positive => exact ⟨y, Number.read_of_unsigned hy⟩

/-- What is written for a number: a whole one, nothing if there is no end to it, or a text that is
read as a number again. -/
theorem ofNumber_cases (x : Float) :
    (∃ n, integer? x = some n ∧ n.natAbs < 9000000000000000 ∧ ofNumber x = .int n) ∨
    (isFinite x = false ∧ ofNumber x = .null) ∨
    isFinite x = true ∧ ofNumber x = .float x ∧
      ∃ y, Number.read (Layout.json.format x).toList = some (.float y, []) := by
  have hendless (hwhole : (magnitude x).whole? = none) (hinfinite : isFinite x = false) :
      isFinite x = false ∧ ofNumber x = .null := by
    have hinteger : integer? x = none := by
      unfold integer?
      rw [hwhole]
      rfl
    exact ⟨hinfinite, by rw [ofNumber, hinteger, hinfinite]; rfl⟩
  cases hparts : parts x with
  | infinity | notANumber =>
    refine .inr (.inl (hendless ?_ ?_))
    · rw [magnitude_eq, hparts]
      rfl
    · rw [isFinite, magnitude_eq, hparts]
      rfl
  | zero s =>
    have hinteger := integer?_of_zero hparts
    exact .inl ⟨0, hinteger, by decide, by rw [ofNumber, hinteger]; rfl⟩
  | finite s m e hm =>
    have hfinite : isFinite x = true := by
      rw [isFinite, magnitude_eq, hparts]
      rfl
    have hread := read_format hparts
    cases hinteger : integer? x with
    | none => exact .inr (.inr ⟨hfinite, by rw [ofNumber, hinteger, hfinite]; rfl, hread⟩)
    | some n =>
      by_cases hn : n.natAbs < 9000000000000000
      · exact .inl ⟨n, rfl, hn, by rw [ofNumber, hinteger]; exact if_pos hn⟩
      · exact .inr (.inr ⟨hfinite, by rw [ofNumber, hinteger]; exact if_neg hn, hread⟩)

end Archipelago.Json
