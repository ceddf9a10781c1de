import Archipelago.Json.Reader
import Mathlib.Data.List.Basic
import Mathlib.Data.Nat.Basic

/-!
# Numbers and strings in JSON text

A reader takes from a text what has been written, whatever stands behind it, as long as that cannot
be a part of a number. Whole numbers that fit 64 bits are read as they are. What is read of other
numbers is what is read of them alone.
-/

namespace Archipelago.Json

/-- What can stand behind a value in a text: nothing, or a sign that ends it. -/
def Ends : Chars → Prop
  | [] => True
  | c :: _ => c = ',' ∨ c = ']' ∨ c = '}'

theorem Ends.not_isDigit {c : Char} {cs : Chars} (h : Ends (c :: cs)) : c.isDigit = false := by
  rcases h with rfl | rfl | rfl <;> decide

namespace Number

theorem fraction_of_ne {c : Char} {cs : Chars} (h : c ≠ '.') :
    fraction (c :: cs) = some (none, c :: cs) := by
  unfold fraction
  split
  · rename_i he
    exact absurd (List.cons.inj he).1 h
  · rfl

theorem optionalExponent_of_ne {c : Char} {cs : Chars} (h : c ≠ 'e') (h' : c ≠ 'E') :
    optionalExponent (c :: cs) = some (none, c :: cs) := by
  unfold optionalExponent
  split
  · rename_i he
    exact absurd (List.cons.inj he).1 h
  · rename_i he
    exact absurd (List.cons.inj he).1 h'
  · rfl

/-- The digits of an exponent behind its sign, which has been looked at. -/
def exponentDigits (negative : Bool) : Reader Int := fun cs =>
  if (digits cs).1.isEmpty then none
  else
    let n : Int := Decimal.digitsValue (digits cs).1
    some (if negative then -n else n, (digits cs).2)

theorem exponent_cons (c : Char) (cs : Chars) :
    exponent (c :: cs) =
      if c = '+' then exponentDigits false cs
      else if c = '-' then exponentDigits true cs
      else exponentDigits false (c :: cs) := by
  unfold exponent
  split
  · rename_i he
    split at he
    · rename_i hc
      obtain ⟨rfl, rfl⟩ := List.cons.inj hc
      obtain ⟨rfl, rfl⟩ := Prod.mk.inj he
      rfl
    · rename_i hc
      obtain ⟨rfl, rfl⟩ := List.cons.inj hc
      obtain ⟨rfl, rfl⟩ := Prod.mk.inj he
      rfl
    · rename_i hplus hminus
      obtain ⟨rfl, rfl⟩ := Prod.mk.inj he
      rw [if_neg, if_neg]
      · rfl
      · rintro rfl
        exact hminus cs rfl
      · rintro rfl
        exact hplus cs rfl

theorem read_cons (c : Char) (cs : Chars) :
    read (c :: cs) = if c = '-' then unsigned true cs else unsigned false (c :: cs) := by
  unfold read
  split
  · rename_i he
    obtain ⟨rfl, rfl⟩ := List.cons.inj he
    rw [if_pos rfl]
  · rename_i hminus
    rw [if_neg]
    rintro rfl
    exact hminus cs rfl

/-! ## What stands behind a number -/

section

variable {rest : Chars} (hrest : Ends rest)
include hrest

theorem digits_of_ends : digits rest = ([], rest) := by
  cases rest with
  | nil => rfl
  | cons c cs =>
    unfold digits
    rw [List.takeWhile_cons, List.dropWhile_cons, hrest.not_isDigit]
    rfl

/-- What is behind a number adds no digits to it. -/
theorem digits_append (cs : Chars) :
    digits (cs ++ rest) = ((digits cs).1, (digits cs).2 ++ rest) := by
  induction cs with
  | nil => exact digits_of_ends hrest
  | cons c cs ih =>
    unfold digits at ih ⊢
    obtain ⟨htake, hdrop⟩ := Prod.mk.inj ih
    rw [List.cons_append, List.takeWhile_cons, List.dropWhile_cons, List.takeWhile_cons,
      List.dropWhile_cons]
    split
    · rw [htake, hdrop]
    · rfl

/-- What is behind a number adds nothing to its fraction. -/
theorem fraction_append {cs tail : Chars} {frac : Option Chars}
    (h : fraction cs = some (frac, tail)) : fraction (cs ++ rest) = some (frac, tail ++ rest) := by
  cases cs with
  | nil =>
    obtain ⟨rfl, rfl⟩ := Prod.mk.inj (Option.some.inj h)
    cases rest with
    | nil => rfl
    | cons c cs => exact fraction_of_ne (by rcases hrest with rfl | rfl | rfl <;> decide)
  | cons c cs =>
    by_cases hc : c = '.'
    · subst hc
      rw [List.cons_append]
      unfold fraction at h ⊢
      simp only [digits_append hrest] at h ⊢
      split at h
      · cases h
      · rename_i hdigits
        obtain ⟨rfl, rfl⟩ := Prod.mk.inj (Option.some.inj h)
        exact if_neg hdigits
    · rw [fraction_of_ne hc] at h
      obtain ⟨rfl, rfl⟩ := Prod.mk.inj (Option.some.inj h)
      exact fraction_of_ne hc

/-- What is behind a number adds nothing to its exponent. -/
theorem exponentDigits_append {negative : Bool} {cs tail : Chars} {e : Int}
    (h : exponentDigits negative cs = some (e, tail)) :
    exponentDigits negative (cs ++ rest) = some (e, tail ++ rest) := by
  unfold exponentDigits at h ⊢
  rw [digits_append hrest]
  split at h
  · cases h
  · rename_i hdigits
    obtain ⟨rfl, rfl⟩ := Prod.mk.inj (Option.some.inj h)
    exact if_neg hdigits

theorem exponent_append {cs tail : Chars} {e : Int} (h : exponent cs = some (e, tail)) :
    exponent (cs ++ rest) = some (e, tail ++ rest) := by
  cases cs with
  | nil => cases h
  | cons c cs =>
    rw [exponent_cons] at h
    rw [List.cons_append, exponent_cons]
    split at h
    · rename_i hplus
      rw [if_pos hplus]
      exact exponentDigits_append hrest h
    · rename_i hplus
      rw [if_neg hplus]
      split at h
      · rename_i hminus
        rw [if_pos hminus]
        exact exponentDigits_append hrest h
      · rename_i hminus
        rw [if_neg hminus]
        exact exponentDigits_append hrest h

theorem optionalExponent_append {cs tail : Chars} {exp : Option Int}
    (h : optionalExponent cs = some (exp, tail)) :
    optionalExponent (cs ++ rest) = some (exp, tail ++ rest) := by
  cases cs with
  | nil =>
    obtain ⟨rfl, rfl⟩ := Prod.mk.inj (Option.some.inj h)
    cases rest with
    | nil => rfl
    | cons c cs =>
      refine optionalExponent_of_ne ?_ ?_
      · rcases hrest with rfl | rfl | rfl <;> decide
      · rcases hrest with rfl | rfl | rfl <;> decide
  | cons c cs =>
    have hread : ∀ {cs : Chars}, (exponent cs).map (fun r => (some r.1, r.2)) = some (exp, tail) →
        (exponent (cs ++ rest)).map (fun r => (some r.1, r.2)) = some (exp, tail ++ rest) := by
      intro cs h
      obtain ⟨⟨e, behind⟩, he, hexp⟩ := Option.map_eq_some_iff.1 h
      obtain ⟨rfl, rfl⟩ := Prod.mk.inj hexp
      rw [exponent_append hrest he]
      rfl
    by_cases hlower : c = 'e'
    · subst hlower
      exact hread h
    · by_cases hupper : c = 'E'
      · subst hupper
        exact hread h
      · rw [optionalExponent_of_ne hlower hupper] at h
        obtain ⟨rfl, rfl⟩ := Prod.mk.inj (Option.some.inj h)
        exact optionalExponent_of_ne hlower hupper

/-- A number is read up to where it ends, whatever follows. -/
theorem unsigned_append {negative : Bool} {cs tail : Chars} {j : Json}
    (h : unsigned negative cs = some (j, tail)) :
    unsigned negative (cs ++ rest) = some (j, tail ++ rest) := by
  unfold unsigned at h ⊢
  rw [digits_append hrest]
  dsimp only at h ⊢
  split at h
  · cases h
  · rename_i hdigits
    obtain ⟨⟨frac, behind⟩, hfrac, h⟩ := Option.bind_eq_some_iff.1 h
    obtain ⟨⟨exp, behind'⟩, hexp, h⟩ := Option.bind_eq_some_iff.1 h
    obtain ⟨rfl, rfl⟩ := Prod.mk.inj (Option.some.inj h)
    rw [if_neg hdigits]
    refine Option.bind_eq_some_iff.2 ⟨_, fraction_append hrest hfrac, ?_⟩
    exact Option.bind_eq_some_iff.2 ⟨_, optionalExponent_append hrest hexp, rfl⟩

/-- What is read from a text is read as well in front of something that ends it. -/
theorem read_append {cs tail : Chars} {j : Json} (h : read cs = some (j, tail)) :
    read (cs ++ rest) = some (j, tail ++ rest) := by
  cases cs with
  | nil => cases h
  | cons c cs =>
    rw [read_cons] at h
    rw [List.cons_append, read_cons]
    split at h
    · rename_i hminus
      rw [if_pos hminus]
      exact unsigned_append hrest h
    · rename_i hminus
      rw [if_neg hminus]
      exact unsigned_append hrest h

end

/-- A number starts with a digit or with a sign. -/
theorem exists_head {cs tail : Chars} {j : Json} (h : read cs = some (j, tail)) :
    ∃ c cs', cs = c :: cs' ∧ (c = '-' ∨ c.isDigit = true) := by
  cases cs with
  | nil => cases h
  | cons c cs =>
    refine ⟨c, cs, rfl, ?_⟩
    rw [read_cons] at h
    split at h
    · rename_i hc
      exact .inl hc
    · right
      by_contra hdigit
      unfold unsigned digits at h
      rw [List.takeWhile_cons, if_neg hdigit] at h
      cases h

/-! ## Whole numbers -/

/-- Digits behind a number make it no smaller. -/
theorem le_ofDigitChars (ds : Chars) (sig : Nat) : sig ≤ Nat.ofDigitChars 10 ds sig := by
  induction ds generalizing sig with
  | nil => exact Nat.le_refl _
  | cons d ds ih =>
    rw [Nat.ofDigitChars_cons]
    exact Nat.le_trans (by omega) (ih _)

/-- All digits of a number that fits are taken. -/
theorem gather_eq (ds : Chars) (sig taken : Nat)
    (h : Nat.ofDigitChars 10 ds sig < 0x10000000000000000) :
    gather sig taken ds = (Nat.ofDigitChars 10 ds sig, taken + ds.length, []) := by
  induction ds generalizing sig taken with
  | nil => rfl
  | cons d ds ih =>
    rw [Nat.ofDigitChars_cons] at h ⊢
    have hnext : sig * 10 + (d.toNat - 48) = 10 * sig + (d.toNat - '0'.toNat) := by
      rw [Nat.mul_comm]
      rfl
    have hfits : fits (10 * sig + (d.toNat - '0'.toNat)) = true :=
      decide_eq_true (Nat.lt_of_le_of_lt (le_ofDigitChars ds _) h)
    rw [gather, hnext, if_pos hfits, ih _ _ h, List.length_cons, Nat.add_right_comm, Nat.add_assoc]

theorem digitChar_ne_zero : ∀ n < 10, 0 < n → n.digitChar ≠ '0' := by decide

/-- No zero stands in front of a number but zero. -/
theorem head?_toDigits {n : Nat} (h : 0 < n) : (Nat.toDigits 10 n).head? ≠ some '0' := by
  induction n using Nat.strongRecOn with
  | ind n ih =>
    rw [Nat.toDigits_eq_if (by decide)]
    split
    · rename_i hn
      exact fun hhead => digitChar_ne_zero n hn h (Option.some.inj hhead)
    · rw [List.head?_append_of_ne_nil _ Nat.toDigits_ne_nil]
      exact ih _ (by omega) (by omega)

theorem digits_toDigits (n : Nat) {rest : Chars} (hrest : Ends rest) :
    digits (Nat.toDigits 10 n ++ rest) = (Nat.toDigits 10 n, rest) := by
  have hall : ∀ c ∈ Nat.toDigits 10 n, c.isDigit = true := fun c hc =>
    Nat.isDigit_of_mem_toDigits (by decide) (by decide) hc
  obtain ⟨htake, hdrop⟩ := Prod.mk.inj (digits_of_ends hrest)
  unfold digits
  rw [List.takeWhile_append_of_pos hall, List.dropWhile_append_of_pos hall, htake, hdrop,
    List.append_nil]

/-- The digits of a whole number are read as they are. -/
theorem unsigned_toDigits (negative : Bool) (n : Nat) {rest : Chars} (hrest : Ends rest) :
    unsigned negative (Nat.toDigits 10 n ++ rest) =
      some (value negative (Nat.toDigits 10 n) none none, rest) := by
  have hlead : ((Nat.toDigits 10 n).isEmpty || (decide ((Nat.toDigits 10 n).head? = some '0')
      && (Nat.toDigits 10 n).length != 1)) = false := by
    cases n with
    | zero => decide
    | succ n =>
      rw [List.isEmpty_eq_false_iff.2 Nat.toDigits_ne_nil,
        decide_eq_false (head?_toDigits (Nat.succ_pos n))]
      rfl
  have hfraction : fraction ([] ++ rest) = some (none, [] ++ rest) := fraction_append hrest rfl
  have hexponent : optionalExponent ([] ++ rest) = some (none, [] ++ rest) :=
    optionalExponent_append hrest rfl
  rw [List.nil_append] at hfraction hexponent
  unfold unsigned
  rw [digits_toDigits n hrest]
  dsimp only
  rw [hlead, if_neg Bool.false_ne_true, hfraction]
  show (optionalExponent rest).bind _ = _
  rw [hexponent]
  rfl

/-- The digits of a number that fits give the number. -/
theorem value_toDigits (negative : Bool) {n : Nat} (h : n < 0x10000000000000000)
    (hn : negative = true → 0 < n ∧ n ≤ 0x8000000000000000) :
    value negative (Nat.toDigits 10 n) none none = .int (if negative then -(n : Int) else n) := by
  have hgather := gather_eq (Nat.toDigits 10 n) 0 0 (by rwa [Nat.ofDigitChars_ten_toDigits])
  rw [Nat.ofDigitChars_ten_toDigits] at hgather
  unfold value
  rw [hgather]
  dsimp only
  cases negative with
  | false => rfl
  | true =>
    obtain ⟨hpos, hle⟩ := hn rfl
    have hlarge : (decide (n = 0) || decide (0x8000000000000000 < n)) = false := by
      simp only [Bool.or_eq_false_iff, decide_eq_false_iff_not]
      omega
    simp only [gather, Option.getD_none, Option.isNone_none, List.isEmpty_nil, Bool.and_self,
      Bool.not_true, if_true, hlarge, Bool.false_eq_true, if_false]

end Number

/-- Whole numbers that a reader takes as they are. -/
def FitsInt (n : Int) : Prop := -0x8000000000000000 ≤ n ∧ n < 0x10000000000000000

theorem toList_ofNat (n : Nat) : (toString (n : Int)).toList = Nat.toDigits 10 n :=
  (congrArg String.toList (@Nat.toString_eq_ofList_toDigits n)).trans String.toList_ofList

theorem toList_negSucc (n : Nat) :
    (toString (Int.negSucc n)).toList = '-' :: Nat.toDigits 10 (n + 1) := by
  show ("-" ++ Nat.repr (n + 1)).toList = _
  rw [String.toList_append, Nat.repr_eq_ofList_toDigits, String.toList_ofList, String.toList_ofList]
  rfl

/-- A whole number of 64 bits is read back from its text. -/
theorem Number.read_int {n : Int} (h : FitsInt n) {rest : Chars} (hrest : Ends rest) :
    Number.read ((toString n).toList ++ rest) = some (.int n, rest) := by
  obtain ⟨hlow, hhigh⟩ := h
  cases n with
  | ofNat n =>
    have hread := unsigned_toDigits false n hrest
    rw [Int.ofNat_eq_natCast] at hhigh ⊢
    rw [value_toDigits false (by omega) nofun] at hread
    rw [toList_ofNat]
    cases hdigits : Nat.toDigits 10 n with
    | nil => exact absurd hdigits Nat.toDigits_ne_nil
    | cons d ds =>
      have hd : d.isDigit = true :=
        Nat.isDigit_of_mem_toDigits (by decide) (by decide) (hdigits ▸ List.mem_cons_self)
      rw [List.cons_append, read_cons, if_neg (by rintro rfl; cases hd), ← List.cons_append,
        ← hdigits,
        hread]
      rfl
  | negSucc n =>
    have hread := unsigned_toDigits true (n + 1) hrest
    rw [value_toDigits true (by omega) fun _ => ⟨Nat.succ_pos n, by omega⟩] at hread
    rw [toList_negSucc, List.cons_append, read_cons, if_pos rfl, hread]
    rfl

/-! ## Texts of numbers -/

/-- The signs that the text of a number is made of, one that is no number included. -/
def Numeral (c : Char) : Prop :=
  c.isDigit = true ∨ c ∈ ['.', 'e', '+', '-', 'N', 'a', 'i', 'n', 'f']

instance : DecidablePred Numeral := fun _ => inferInstanceAs (Decidable (_ ∨ _))

theorem numeral_of_mem_toDigits {n : Nat} {c : Char} (h : c ∈ Nat.toDigits 10 n) : Numeral c :=
  .inl (Nat.isDigit_of_mem_toDigits (by decide) (by decide) h)

theorem numeral_of_mem_place (l : Decimal.Layout) {ds : Chars} (e : Int)
    (h : ∀ c ∈ ds, Numeral c) {c : Char} (hc : c ∈ l.place ds e) : Numeral c := by
  have hzeros {n : Nat} (hc : c ∈ List.replicate n '0') : Numeral c := by
    rw [List.eq_of_mem_replicate hc]
    exact .inl rfl
  unfold Decimal.Layout.place at hc
  split at hc
  · rcases List.mem_append.1 hc with hc | hc
    · rcases List.mem_append.1 hc with hc | hc
      · simp only [List.mem_cons, List.not_mem_nil, or_false] at hc
        rcases hc with rfl | rfl
        · exact .inl rfl
        · exact .inr (by decide)
      · exact hzeros hc
    · exact h c hc
  · have hwhole : c ∈ ds.take (e.toNat + 1) ++ List.replicate (e.toNat + 1 - ds.length) '0' →
        Numeral c := fun hc =>
      (List.mem_append.1 hc).elim (fun hc => h c (List.mem_of_mem_take hc)) hzeros
    dsimp only at hc
    split at hc
    · split at hc
      · rcases List.mem_append.1 hc with hc | hc
        · exact hwhole hc
        · simp only [List.mem_cons, List.not_mem_nil, or_false] at hc
          rcases hc with rfl | rfl
          · exact .inr (by decide)
          · exact .inl rfl
      · exact hwhole hc
    · rcases List.mem_append.1 hc with hc | hc
      · rcases List.mem_append.1 hc with hc | hc
        · exact hwhole hc
        · rw [List.mem_singleton.1 hc]
          exact .inr (by decide)
      · exact h c (List.mem_of_mem_drop hc)

theorem numeral_of_mem_scientific (l : Decimal.Layout) {ds : Chars} (e : Int)
    (h : ∀ c ∈ ds, Numeral c) {c : Char} (hc : c ∈ l.scientific ds e) : Numeral c := by
  unfold Decimal.Layout.scientific at hc
  simp only [List.mem_append, List.mem_singleton] at hc
  rcases hc with ((hc | rfl) | hc) | hc
  · split at hc
    · cases hc
    · exact h c hc
    · rename_i d rest _
      rcases List.mem_cons.1 hc with rfl | hc
      · exact h _ List.mem_cons_self
      · rcases List.mem_cons.1 hc with rfl | hc
        · exact .inr (by decide)
        · exact h c (List.mem_cons_of_mem _ hc)
  · exact .inr (by decide)
  · split at hc
    · rw [List.mem_singleton.1 hc]
      exact .inr (by decide)
    · split at hc
      · rw [List.mem_singleton.1 hc]
        exact .inr (by decide)
      · cases hc
  · exact numeral_of_mem_toDigits hc

theorem numeral_of_mem_magnitudeChars (l : Decimal.Layout) (m : Decimal.Magnitude) {c : Char}
    (hc : c ∈ l.magnitudeChars m) : Numeral c := by
  cases m with
  | nan | infinite =>
    simp only [Decimal.Layout.magnitudeChars, List.mem_cons, List.not_mem_nil, or_false] at hc
    rcases hc with rfl | rfl | rfl <;> exact .inr (by decide)
  | finite m e =>
    have hds : ∀ c ∈ Decimal.dropZeros (Nat.toDigits 10 (Decimal.shortest l.tie m e).digits),
        Numeral c := fun c hc =>
      numeral_of_mem_toDigits
        (List.mem_reverse.1 ((List.dropWhile_suffix _).subset (List.mem_reverse.1 hc)))
    unfold Decimal.Layout.magnitudeChars at hc
    dsimp only at hc
    split at hc
    · refine numeral_of_mem_place l 0 (fun c hc => ?_) hc
      rw [List.mem_singleton.1 hc]
      exact .inl rfl
    · split at hc
      · exact numeral_of_mem_place l _ hds hc
      · split at hc
        · exact numeral_of_mem_place l _ hds hc
        · exact numeral_of_mem_scientific l _ hds hc

/-- A number is written in characters of numbers only. -/
theorem numeral_of_mem_format (l : Decimal.Layout) (x : Float) {c : Char}
    (hc : c ∈ (l.format x).toList) : Numeral c := by
  unfold Decimal.Layout.format at hc
  rw [String.toList_ofList] at hc
  rcases List.mem_append.1 hc with hc | hc
  · split at hc
    · rw [List.mem_singleton.1 hc]
      exact .inr (by decide)
    · cases hc
  · exact numeral_of_mem_magnitudeChars l _ hc

/-! ## What is left of a text -/

namespace Number

theorem digits_suffix (cs : Chars) : (digits cs).2 <:+ cs := List.dropWhile_suffix _

theorem fraction_suffix {cs tail : Chars} {frac : Option Chars}
    (h : fraction cs = some (frac, tail)) : tail <:+ cs := by
  unfold fraction at h
  split at h
  · rename_i cs
    dsimp only at h
    split at h
    · cases h
    · obtain ⟨-, rfl⟩ := Prod.mk.inj (Option.some.inj h)
      exact (digits_suffix cs).trans (List.suffix_cons _ _)
  · obtain ⟨-, rfl⟩ := Prod.mk.inj (Option.some.inj h)
    exact List.suffix_refl _

theorem exponentDigits_suffix {negative : Bool} {cs tail : Chars} {e : Int}
    (h : exponentDigits negative cs = some (e, tail)) : tail <:+ cs := by
  unfold exponentDigits at h
  split at h
  · cases h
  · obtain ⟨-, rfl⟩ := Prod.mk.inj (Option.some.inj h)
    exact digits_suffix cs

theorem exponent_suffix {cs tail : Chars} {e : Int} (h : exponent cs = some (e, tail)) :
    tail <:+ cs := by
  cases cs with
  | nil => cases h
  | cons c cs =>
    rw [exponent_cons] at h
    split at h
    · exact (exponentDigits_suffix h).trans (List.suffix_cons _ _)
    · split at h
      · exact (exponentDigits_suffix h).trans (List.suffix_cons _ _)
      · exact exponentDigits_suffix h

theorem optionalExponent_suffix {cs tail : Chars} {exp : Option Int}
    (h : optionalExponent cs = some (exp, tail)) : tail <:+ cs := by
  have hread : ∀ {c : Char} {cs : Chars},
      (exponent cs).map (fun r => (some r.1, r.2)) = some (exp, tail) → tail <:+ c :: cs := by
    intro c cs h
    obtain ⟨⟨e, behind⟩, he, hexp⟩ := Option.map_eq_some_iff.1 h
    obtain ⟨-, rfl⟩ := Prod.mk.inj hexp
    exact (exponent_suffix he).trans (List.suffix_cons _ _)
  unfold optionalExponent at h
  split at h
  · exact hread h
  · exact hread h
  · obtain ⟨-, rfl⟩ := Prod.mk.inj (Option.some.inj h)
    exact List.suffix_refl _

/-- What is left of a text is its end. -/
theorem unsigned_suffix {negative : Bool} {cs tail : Chars} {j : Json}
    (h : unsigned negative cs = some (j, tail)) : tail <:+ cs := by
  unfold unsigned at h
  dsimp only at h
  split at h
  · cases h
  · obtain ⟨⟨frac, behind⟩, hfrac, h⟩ := Option.bind_eq_some_iff.1 h
    obtain ⟨⟨exp, behind'⟩, hexp, h⟩ := Option.bind_eq_some_iff.1 h
    obtain ⟨-, rfl⟩ := Prod.mk.inj (Option.some.inj h)
    exact ((optionalExponent_suffix hexp).trans (fraction_suffix hfrac)).trans (digits_suffix cs)

/-- What a number leaves of a text is the end of the text. -/
theorem read_suffix {cs tail : Chars} {j : Json} (h : read cs = some (j, tail)) : tail <:+ cs := by
  cases cs with
  | nil => cases h
  | cons c cs =>
    rw [read_cons] at h
    split at h
    · exact (unsigned_suffix h).trans (List.suffix_cons _ _)
    · exact unsigned_suffix h

end Number

end Archipelago.Json
