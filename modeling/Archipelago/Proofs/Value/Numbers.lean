import Archipelago.Proofs.Decimal.Whole
import Archipelago.Proofs.Json.Floats
import Archipelago.Proofs.Text
import Archipelago.Template.Format
import Archipelago.Value

/-!
# Texts of numbers

Equal numbers have the same text. A whole number that is not too large is written with all of its
digits, and from them it is read again.

The digits of a number are shown in groups of three, counted from the end, with commas between them.
The recursion comes from the front and sees how many digits are left, so that what is over is the
first group. Nothing else of the text is touched, and text that is no number stays as it is.
-/

namespace Archipelago

namespace Decimal

/-- Digits are read as the whole number that they stand for. -/
theorem unsigned?_toDigits {n : Nat} (h : n < 10 ^ 15) :
    unsigned? (Nat.toDigits 10 n) = some (Float.ofNat n) := by
  have hdigits : ∀ c ∈ Nat.toDigits 10 n, c.isDigit = true := fun c hc =>
    Nat.isDigit_of_mem_toDigits (by decide) (by decide) hc
  have hvalue : digitsValue (Nat.toDigits 10 n) = n := by
    rw [Json.digitsValue_eq, Nat.ofDigitChars_ten_toDigits]
  have hlength : (Nat.toDigits 10 n).length ≤ 15 :=
    (Nat.length_toDigits_le_iff (by decide) (by decide)).2 h
  have hnearest : nearest n 0 = Float.ofNat n := by
    unfold nearest
    by_cases hzero : n = 0
    · subst hzero
      rfl
    · rw [if_neg hzero, if_neg (by omega), if_neg (by omega), if_pos le_rfl]
      rfl
  unfold unsigned?
  rw [List.takeWhile_eq_self_iff.2 hdigits, List.dropWhile_eq_nil_iff.2 hdigits]
  simp [hvalue, hnearest, Nat.toDigits_ne_nil]

theorem read?_toString {n : Int} (h : n.natAbs < 10 ^ 15) :
    read? (toString n) = some (Float.ofInt n) := by
  cases n with
  | ofNat n =>
    have hread := unsigned?_toDigits (n := n) h
    unfold read?
    rw [Int.ofNat_eq_natCast, Json.toList_ofNat]
    cases hdigits : Nat.toDigits 10 n with
    | nil => exact absurd hdigits Nat.toDigits_ne_nil
    | cons d ds =>
      have hd : d.isDigit = true :=
        Nat.isDigit_of_mem_toDigits (by decide) (by decide) (hdigits ▸ List.mem_cons_self)
      rw [hdigits] at hread
      split
      · rename_i heq
        obtain ⟨rfl, -⟩ := List.cons.inj heq
        cases hd
      · rename_i heq
        obtain ⟨rfl, -⟩ := List.cons.inj heq
        cases hd
      · rw [hread]
        rfl
  | negSucc n =>
    have hread := unsigned?_toDigits (n := n + 1) h
    unfold read?
    rw [Json.toList_negSucc]
    simp only [hread]
    rfl

end Decimal

open Decimal

theorem trim_toString (n : Int) : Text.trim (toString n) = toString n := by
  have hdigits : ∀ {n : Nat} {c : Char}, c ∈ Nat.toDigits 10 n → Text.isBlank c = false := by
    intro n c hc
    have hdigit := Nat.isDigit_of_mem_toDigits (b := 10) (by decide) (by decide) hc
    exact Text.not_isBlank_of_isAlphanum (by simp [Char.isAlphanum, hdigit])
  have hplain : ∀ c ∈ (toString n).toList, Text.isBlank c = false := by
    intro c hc
    cases n with
    | ofNat n => exact hdigits (Json.toList_ofNat n ▸ hc)
    | negSucc n =>
      rw [Json.toList_negSucc] at hc
      obtain rfl | hc := List.mem_cons.1 hc
      · decide
      · exact hdigits hc
  rw [Text.trim, Text.stripWhere_of_forall hplain, String.ofList_toList]

namespace Value

/-- The text of a number is read as an equal number. -/
def ReadsBack (x : Float) : Prop := ∃ y, parseNumber (formatNumber x) = some y ∧ (y == x) = true

theorem beq_float_comm (x y : Float) : (x == y) = (y == x) := by
  rw [Bool.eq_iff_iff, Float.beq_iff_ne_nan_and_eq, Float.beq_iff_ne_nan_and_eq]
  grind

/-- Equal numbers have the same text. -/
theorem formatNumber_eq {x y : Float} (h : (x == y) = true) : formatNumber x = formatNumber y := by
  have hzeros : formatNumber 0 = formatNumber (-0) := by decide +kernel
  obtain ⟨-, -, rfl | ⟨rfl, rfl⟩ | ⟨rfl, rfl⟩⟩ := Float.beq_iff_ne_nan_and_eq.1 h
  · rfl
  · exact hzeros
  · exact hzeros.symm

theorem isFinite_of_beq {x y : Float} (h : (y == x) = true) (hx : isFinite x = true) :
    isFinite y = true := by
  have hzeros : isFinite 0 = true ∧ isFinite (-0) = true := by decide +kernel
  obtain ⟨-, -, rfl | ⟨rfl, rfl⟩ | ⟨rfl, rfl⟩⟩ := Float.beq_iff_ne_nan_and_eq.1 h
  · exact hx
  · exact hzeros.1
  · exact hzeros.2

theorem formatNumber_of_integer? {x : Float} {n : Int} (h : integer? x = some n)
    (hn : n.natAbs < 10 ^ 15) : formatNumber x = toString n := by
  unfold formatNumber
  rw [h]
  exact if_pos hn

/-- A whole number with at most fifteen digits is read back from its text. -/
theorem readsBack_of_integer? {x : Float} {n : Int} (h : integer? x = some n)
    (hn : n.natAbs < 10 ^ 15) : ReadsBack x := by
  have hbeq := Decimal.ofInt_beq h (Nat.lt_trans hn (by decide))
  refine ⟨Float.ofInt n, ?_, hbeq⟩
  rw [formatNumber_of_integer? h hn, parseNumber, trim_toString, read?_toString hn]
  exact if_pos (isFinite_of_beq hbeq (isFinite_of_integer? h))

end Value

namespace Template

/-! ## Groups -/

/-- Groups of three between commas, behind a first one of at most three. -/
def Grouped (shown : List Char) : Prop :=
  ∃ first rest, shown.splitOn ',' = first :: rest ∧ 1 ≤ first.length ∧ first.length ≤ 3 ∧
    ∀ group ∈ rest, group.length = 3

theorem groupDigits_cons_of_full {cs : List Char} (hne : cs ≠ []) (h : cs.length % 3 = 0)
    (c : Char) : groupDigits (c :: cs) = c :: ',' :: groupDigits cs := by
  rw [groupDigits, if_pos (by simpa [h] using hne)]

theorem groupDigits_cons_of_not_full {cs : List Char} (h : cs.length % 3 ≠ 0) (c : Char) :
    groupDigits (c :: cs) = c :: groupDigits cs := by
  rw [groupDigits, if_neg (by simp [h])]

theorem filter_of_notMem {cs : List Char} (h : ',' ∉ cs) : cs.filter (· ≠ ',') = cs :=
  List.filter_eq_self.2 fun _ hc => decide_eq_true fun he => h (he ▸ hc)

/-- Without the commas there are the same digits again. -/
theorem filter_groupDigits {digits : List Char} (h : ',' ∉ digits) :
    (groupDigits digits).filter (· ≠ ',') = digits := by
  induction digits with
  | nil => rfl
  | cons c cs ih =>
    obtain ⟨hc, hcs⟩ := not_or.1 (mt List.mem_cons.2 h)
    have hrest := ih hcs
    unfold groupDigits
    split
    · simpa [Ne.symm hc] using hrest
    · simpa [Ne.symm hc] using hrest

theorem length_flatten_of_three {groups : List (List Char)}
    (h : ∀ group ∈ groups, group.length = 3) : groups.flatten.length = 3 * groups.length := by
  rw [List.length_flatten, List.map_eq_replicate_iff.2 h, List.sum_replicate_nat, Nat.mul_comm]

/-- One more digit in front opens a group of its own if all groups behind it are full. -/
theorem exists_groups {digits : List Char} (hne : digits ≠ []) :
    ∃ first rest, digits = first ++ rest.flatten ∧
      groupDigits digits = [','].intercalate (first :: rest) ∧ 1 ≤ first.length ∧
      first.length ≤ 3 ∧ ∀ group ∈ rest, group.length = 3 := by
  induction digits with
  | nil => exact absurd rfl hne
  | cons c cs ih =>
    by_cases hcs : cs = []
    · subst hcs
      exact ⟨[c], [], rfl, by simp [groupDigits], Nat.le_refl 1, Nat.le_add_left 1 2,
        List.forall_mem_nil _⟩
    · obtain ⟨first, rest, hdigits, hshown, hpos, hle, hthree⟩ := ih hcs
      have hlength : cs.length = first.length + 3 * rest.length := by
        rw [hdigits, List.length_append, length_flatten_of_three hthree]
      by_cases hfull : cs.length % 3 = 0
      · refine ⟨[c], first :: rest, congrArg (List.cons c) hdigits, ?_, Nat.le_refl 1,
          Nat.le_add_left 1 2, List.forall_mem_cons.2 ⟨by omega, hthree⟩⟩
        rw [groupDigits_cons_of_full hcs hfull, hshown, List.intercalate_cons_cons]
        rfl
      · refine ⟨c :: first, rest, congrArg (List.cons c) hdigits, ?_, Nat.le_add_left 1 _, ?_,
          hthree⟩
        · rw [groupDigits_cons_of_not_full hfull, hshown]
          cases rest with
          | nil => simp
          | cons group groups => simp [List.intercalate_cons_cons]
        · rw [List.length_cons]
          omega

theorem grouped_groupDigits {digits : List Char} (hne : digits ≠ []) (h : ',' ∉ digits) :
    Grouped (groupDigits digits) := by
  obtain ⟨first, rest, hdigits, hshown, hpos, hle, hthree⟩ := exists_groups hne
  refine ⟨first, rest, ?_, hpos, hle, hthree⟩
  rw [hshown, List.splitOn_intercalate ',' _ (List.cons_ne_nil _ _)]
  intro group hgroup hcomma
  refine h (hdigits ▸ ?_)
  rcases List.mem_cons.1 hgroup with rfl | hgroup
  · exact List.mem_append_left _ hcomma
  · exact List.mem_append_right _ (List.mem_flatten.2 ⟨group, hgroup, hcomma⟩)

/-! ## Numbers -/

/-- A minus sign, or nothing. -/
def signOf (negative : Bool) : List Char := if negative then ['-'] else []

/-- A number as text, in its parts: a sign or none, digits, and what follows from a point on. -/
structure Numeral where
  negative : Bool
  whole : List Char
  fraction : List Char
  ne_nil : whole ≠ []
  isDigit : ∀ c ∈ whole, c.isDigit = true
  stops : Text.Stops (· ≠ '.') fraction

namespace Numeral

variable (n : Numeral)

/-- The sign of a numeral as it is written. -/
def sign : List Char := signOf n.negative

/-- A numeral as it is written. -/
def text : String := String.ofList (n.sign ++ n.whole ++ n.fraction)

theorem notMem_whole {c : Char} (hc : c.isDigit = false) : c ∉ n.whole := fun h =>
  Bool.noConfusion (hc.symm.trans (n.isDigit c h))

/-- The digits end where the fraction starts. -/
theorem split_point : (n.whole ++ n.fraction).takeWhile (· ≠ '.') = n.whole ∧
    (n.whole ++ n.fraction).dropWhile (· ≠ '.') = n.fraction := by
  refine Text.split_of_stops (fun c hc => decide_eq_true ?_) n.stops
  rintro rfl
  exact n.notMem_whole rfl hc

theorem eq_of_mem_sign {c : Char} (h : c ∈ n.sign) : c = '-' := by
  unfold sign signOf at h
  split at h
  · exact List.mem_singleton.1 h
  · cases h

/-- In front of the point there are only the sign and digits. -/
theorem eq_or_isDigit_of_mem {c : Char} (h : c ∈ n.text.toList.takeWhile (· ≠ '.')) :
    c = '-' ∨ c.isDigit = true := by
  rw [text, String.toList_ofList, List.append_assoc, List.takeWhile_append_of_pos, n.split_point.1]
    at h
  · exact (List.mem_append.1 h).imp n.eq_of_mem_sign (n.isDigit c)
  · exact fun c hc => decide_eq_true (n.eq_of_mem_sign hc ▸ by decide)

end Numeral

/-- Behind the sign, the digits up to the point are put into groups. -/
theorem groupThousands_eq (s : String) :
    ∃ negative rest, s.toList = signOf negative ++ rest ∧
      (negative = false → ∀ cs, rest ≠ '-' :: cs) ∧
      groupThousands s = if (rest.takeWhile (· ≠ '.')).all Char.isDigit then
        String.ofList (signOf negative ++ groupDigits (rest.takeWhile (· ≠ '.'))
          ++ rest.dropWhile (· ≠ '.')) else s := by
  unfold groupThousands
  split
  rename_i sign rest hsplit
  split at hsplit
  · rename_i cs hs
    obtain ⟨rfl, rfl⟩ := Prod.mk.inj hsplit
    exact ⟨true, cs, hs, fun h => Bool.noConfusion h, rfl⟩
  · rename_i hplain
    obtain ⟨rfl, rfl⟩ := Prod.mk.inj hsplit
    exact ⟨false, s.toList, rfl, fun _ => hplain, rfl⟩

theorem groupThousands_text (n : Numeral) :
    groupThousands n.text = String.ofList (n.sign ++ groupDigits n.whole ++ n.fraction) := by
  obtain ⟨negative, rest, hs, hplain, heq⟩ := groupThousands_eq n.text
  have hparts : negative = n.negative ∧ rest = n.whole ++ n.fraction := by
    obtain ⟨c, cs, hwhole⟩ := List.exists_cons_of_ne_nil n.ne_nil
    have hc : '-' ≠ c := by
      rintro rfl
      exact n.notMem_whole (c := '-') rfl (hwhole ▸ List.mem_cons_self)
    rw [Numeral.text, String.toList_ofList, Numeral.sign, List.append_assoc] at hs
    cases hn : n.negative with
    | true =>
      rw [hn] at hs
      cases negative with
      | true => exact ⟨rfl, (List.cons.inj hs).2.symm⟩
      | false => exact absurd hs.symm (hplain rfl _)
    | false =>
      rw [hn] at hs
      cases negative with
      | true =>
        rw [hwhole] at hs
        exact absurd (List.cons.inj hs).1.symm hc
      | false => exact ⟨rfl, hs.symm⟩
  obtain ⟨rfl, rfl⟩ := hparts
  obtain ⟨hwhole, hfraction⟩ := n.split_point
  rw [heq, hwhole, hfraction, if_pos (List.all_eq_true.2 n.isDigit)]
  rfl

/-- Text that changes is a number. -/
theorem exists_numeral {s : String} (h : groupThousands s ≠ s) : ∃ n : Numeral, n.text = s := by
  obtain ⟨negative, rest, hs, -, heq⟩ := groupThousands_eq s
  have hcut : rest.takeWhile (· ≠ '.') ++ rest.dropWhile (· ≠ '.') = rest :=
    List.takeWhile_append_dropWhile
  split at heq
  · rename_i hdigits
    have hne : rest.takeWhile (· ≠ '.') ≠ [] := by
      intro hnil
      rw [hnil, List.nil_append] at hcut
      refine h (heq.trans ?_)
      rw [hnil, hcut, groupDigits, List.append_nil, ← hs, String.ofList_toList]
    have hstops : Text.Stops (· ≠ '.') (rest.dropWhile (· ≠ '.')) := by
      intro c hc
      have hhead := List.head?_dropWhile_not (· ≠ '.') rest
      rwa [Option.mem_def.1 hc] at hhead
    refine ⟨⟨negative, _, _, hne, List.all_eq_true.1 hdigits, hstops⟩, ?_⟩
    rw [Numeral.text, List.append_assoc, hcut, Numeral.sign, ← hs, String.ofList_toList]
  · exact absurd heq h

/-- A number keeps its sign and its fraction, and its digits with commas between them are in groups
of three behind a first one of one to three. Any other text stays as it is. -/
theorem groupThousands_exact (s : String) :
    (∀ n : Numeral, n.text = s → ∃ shown,
      (groupThousands s).toList = n.sign ++ shown ++ n.fraction ∧ Grouped shown ∧
        shown.filter (· ≠ ',') = n.whole ∧
        (',' ∉ n.fraction → (groupThousands s).toList.filter (· ≠ ',') = s.toList)) ∧
      ((∀ n : Numeral, n.text ≠ s) → groupThousands s = s) := by
  refine ⟨?_, fun hother => by_contra fun hne => ?_⟩
  · rintro n rfl
    have hcomma := n.notMem_whole (c := ',') rfl
    have hshown := filter_groupDigits hcomma
    refine ⟨groupDigits n.whole, ?_, grouped_groupDigits n.ne_nil hcomma, hshown, fun hplain => ?_⟩
    · rw [groupThousands_text, String.toList_ofList]
    · have hsign : ',' ∉ n.sign := fun h => absurd (n.eq_of_mem_sign h) (by decide)
      rw [groupThousands_text, Numeral.text, String.toList_ofList, String.toList_ofList,
        List.filter_append, List.filter_append, hshown, filter_of_notMem hsign,
        filter_of_notMem hplain]
  · obtain ⟨n, hn⟩ := exists_numeral hne
    exact hother n hn

/-- What is owed, with two places behind the point. -/
def balance : Numeral where
  negative := true
  whole := ['1', '2', '3', '4', '5', '6', '7']
  fraction := ['.', '2', '5']
  ne_nil := List.cons_ne_nil _ _
  isDigit := List.all_eq_true.1 rfl
  stops := Text.stops_cons rfl

/-- A balance of seven digits, and a large power of ten, which is written with an exponent. -/
theorem groupThousands_exact_balance :
    balance.text = "-1234567.25" ∧
      (∃ shown, (groupThousands "-1234567.25").toList = ['-'] ++ shown ++ ['.', '2', '5'] ∧
        Grouped shown ∧ shown.filter (· ≠ ',') = ['1', '2', '3', '4', '5', '6', '7']) ∧
      groupThousands "1e21" = "1e21" := by
  have htext : balance.text = "-1234567.25" := by decide
  obtain ⟨shown, hshown, hgrouped, hwhole, -⟩ := (groupThousands_exact _).1 balance htext
  refine ⟨htext, ⟨shown, hshown, hgrouped, hwhole⟩, ?_⟩
  refine (groupThousands_exact "1e21").2 fun m hm => ?_
  exact absurd (m.eq_or_isDigit_of_mem (c := 'e') (hm ▸ by decide)) (by decide)

end Template

end Archipelago
