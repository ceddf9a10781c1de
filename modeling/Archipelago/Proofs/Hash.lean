import Archipelago.Island
import Mathlib.Data.Finite.Prod
import Mathlib.Data.Finset.Card

/-!
# Names of islands are fresh

Each step of `Hash.mix` can be undone, so different slots give different hashes, and different
hashes give different names. Hence one more candidate than there are names in use is enough to find
one that is not in use, and the slots go through all names that there are.
-/

namespace Archipelago

namespace Hash

/-! ## Mixing -/

/-- To mix in the upper bits can be undone. They are the value shifted once, twice and thrice, and
then nothing is left of it. -/
theorem xor_shiftRight_inj {a b : UInt64} {n : Nat} (hn : 22 ≤ n)
    (h : a.toBitVec ^^^ a.toBitVec >>> n = b.toBitVec ^^^ b.toBitVec >>> n) : a = b := by
  have undo : ∀ x : BitVec 64, x =
      (x ^^^ x >>> n) ^^^ ((x ^^^ x >>> n) >>> n ^^^ (x ^^^ x >>> n) >>> (n + n)) := by
    intro x
    have hzero : x >>> (n + n + n) = 0#64 := BitVec.ushiftRight_eq_zero (by omega)
    simp only [BitVec.ushiftRight_xor_distrib, ← BitVec.shiftRight_add, ← Nat.add_assoc, hzero]
    grind
  rw [← UInt64.toBitVec_inj, undo a.toBitVec, h, ← undo b.toBitVec]

theorem xor_shift_inj {a b n : UInt64} (hn : 22 ≤ (n.toBitVec % 64).toNat)
    (h : a ^^^ a >>> n = b ^^^ b >>> n) : a = b := by
  have h := congrArg UInt64.toBitVec h
  rw [UInt64.toBitVec_xor, UInt64.toBitVec_xor, UInt64.toBitVec_shiftRight,
    UInt64.toBitVec_shiftRight] at h
  exact xor_shiftRight_inj hn h

/-- A factor with an inverse can be cancelled. -/
theorem mul_inj_of_inverse {a b c d : UInt64} (hcd : c * d = 1) (h : a * c = b * c) : a = b := by
  rw [← UInt64.mul_one a, ← UInt64.mul_one b, ← hcd, ← UInt64.mul_assoc, h, UInt64.mul_assoc]

theorem mix_inj {seed value slot slot' : UInt64} (h : mix seed value slot = mix seed value slot') :
    slot = slot' := by
  have hfinish := xor_shift_inj (by decide) h
  have hsecond := mul_inj_of_inverse (d := 0x319642b2d24d8ec3) (by decide) hfinish
  have hfirst := mul_inj_of_inverse (d := 0x96de1b173f119089) (by decide)
    (xor_shift_inj (by decide) hsecond)
  have hsum := (UInt64.add_right_inj _).1 (xor_shift_inj (by decide) hfirst)
  exact mul_inj_of_inverse (d := 0x6106ccfa448e5ab) (by decide) hsum

/-! ## Names -/

/-- The number that hexadecimal digits stand for. -/
def hexNumber (ds : List Char) : Nat := ds.foldl (fun n d => n * 16 + (Text.hexValue? d).getD 0) 0

theorem hexNumber_append_singleton (ds : List Char) (d : Char) :
    hexNumber (ds ++ [d]) = hexNumber ds * 16 + (Text.hexValue? d).getD 0 := by
  simp [hexNumber]

theorem hexValue?_digitChar : ∀ n < 16, Text.hexValue? n.digitChar = some n := by decide

theorem hexNumber_toDigits (n : Nat) : hexNumber (Nat.toDigits 16 n) = n := by
  induction n using Nat.strongRecOn with
  | ind n ih =>
    rw [Nat.toDigits_eq_if (by decide)]
    split
    · rename_i hn
      simp [hexNumber, hexValue?_digitChar n hn]
    · rename_i hn
      rw [hexNumber_append_singleton, ih (n / 16) (by omega),
        hexValue?_digitChar _ (Nat.mod_lt n (by decide)), Option.getD_some]
      omega

theorem hexNumber_replicate_append (k : Nat) (ds : List Char) :
    hexNumber (List.replicate k '0' ++ ds) = hexNumber ds := by
  have hzeros : hexNumber (List.replicate k '0') = 0 := by
    induction k with
    | zero => rfl
    | succ k ih => rw [List.replicate_succ', hexNumber_append_singleton, ih]; rfl
  unfold hexNumber at hzeros ⊢
  rw [List.foldl_append, hzeros]

theorem toId_inj {label : String} {h h' : UInt64} (hid : toId label h = toId label h') :
    h = h' := by
  have hdigits := String.ofList_inj.1 ((String.append_right_inj _).1 hid)
  have hnumber := congrArg hexNumber hdigits
  rw [hexNumber_replicate_append, hexNumber_replicate_append, hexNumber_toDigits,
    hexNumber_toDigits] at hnumber
  exact UInt64.toNat_inj.1 hnumber

end Hash

namespace Island

variable {seed hash : UInt64}

/-! ## Candidates -/

/-- Behind the hash itself no candidate comes twice, until all slots have been tried. -/
theorem candidate_inj {m n : Nat} (hm : m < 2 ^ 64) (hn : n < 2 ^ 64)
    (h : candidate seed hash (m + 1) = candidate seed hash (n + 1)) : m = n := by
  have hslot := Hash.mix_inj (Hash.toId_inj h)
  rw [UInt64.ofNat_add, UInt64.ofNat_add, UInt64.add_left_inj] at hslot
  have hnat := congrArg UInt64.toNat hslot
  rwa [UInt64.toNat_ofNat_of_lt' hm, UInt64.toNat_ofNat_of_lt' hn] at hnat

/-- A candidate is the name of a hash. -/
theorem exists_hash (seed hash : UInt64) : ∀ n, ∃ x, candidate seed hash n = Hash.toId "isl" x
  | 0 => ⟨hash, rfl⟩
  | n + 1 => ⟨Hash.mix seed hash (UInt64.ofNat (n + 1)), rfl⟩

/-- Every name has a slot. -/
theorem exists_candidate (seed hash x : UInt64) :
    ∃ n ≤ 2 ^ 64, candidate seed hash n = Hash.toId "isl" x := by
  have : Finite UInt64 := .of_injective UInt64.toFin fun _ _ => UInt64.toFin_inj.1
  have hmix : Function.Injective (Hash.mix seed hash) := fun _ _ => Hash.mix_inj
  obtain ⟨slot, hslot⟩ := Finite.injective_iff_surjective.1 hmix x
  refine ⟨(slot - 1).toNat + 1, (slot - 1).toNat_lt, ?_⟩
  show Hash.toId "isl" (Hash.mix seed hash (UInt64.ofNat ((slot - 1).toNat + 1))) = _
  rw [UInt64.ofNat_add, UInt64.ofNat_toNat]
  exact congrArg _ ((congrArg _ (UInt64.sub_add_cancel slot 1)).trans hslot)

/-- Of one candidate more than there are names in use one is not in use. -/
theorem exists_free_of_card_lt (seed hash : UInt64) {used : Finset String}
    (h : used.card < 2 ^ 64) :
    ∃ n ≤ used.card + 1, candidate seed hash n ∉ used := by
  let tried := (Finset.range (used.card + 1)).image fun i => candidate seed hash (i + 1)
  have htried : tried.card = used.card + 1 := by
    rw [Finset.card_image_of_injOn, Finset.card_range]
    intro i hi j hj hij
    have hi := Finset.mem_range.1 hi
    have hj := Finset.mem_range.1 hj
    exact candidate_inj (by omega) (by omega) hij
  obtain ⟨id, hid, hfree⟩ : ∃ id ∈ tried, id ∉ used :=
    Finset.exists_mem_notMem_of_card_lt_card (htried ▸ Nat.lt_add_one used.card)
  obtain ⟨i, hi, rfl⟩ := Finset.mem_image.1 hid
  exact ⟨i + 1, Finset.mem_range.1 hi, hfree⟩

/-- A name that is not in use is found by then, be there ever so many in use. -/
theorem exists_free (seed hash : UInt64) {used : Finset String} {x : UInt64}
    (h : Hash.toId "isl" x ∉ used) :
    ∃ n ≤ used.card + 1, candidate seed hash n ∉ used := by
  by_cases hcard : used.card < 2 ^ 64
  · exact exists_free_of_card_lt seed hash hcard
  · obtain ⟨n, hn, hid⟩ := exists_candidate seed hash x
    exact ⟨n, by omega, hid ▸ h⟩

/-! ## Probes -/

/-- So many candidates are in use, and the next one is not. -/
def FreeAfter (used : List String) (seed hash : UInt64) (n : Nat) : Prop :=
  (∀ i < n, candidate seed hash i ∈ used) ∧ candidate seed hash n ∉ used

variable {used : List String}

/-- The first candidate that is not in use is found, if it comes soon enough. -/
theorem firstUnused_eq {fuel m n : Nat} (hused : ∀ i < n, candidate seed hash (m + i) ∈ used)
    (hfree : candidate seed hash (m + n) ∉ used) (hn : n ≤ fuel) :
    firstUnused used seed hash fuel m = candidate seed hash (m + n) := by
  induction fuel generalizing m n with
  | zero =>
    obtain rfl := Nat.le_zero.1 hn
    rfl
  | succ fuel ih =>
    unfold firstUnused
    cases n with
    | zero => exact if_neg hfree
    | succ n =>
      have hfirst := hused 0 (Nat.succ_pos n)
      rw [Nat.add_zero] at hfirst
      rw [if_pos hfirst]
      have hnext : ∀ i, m + 1 + i = m + (i + 1) := fun i => by omega
      rw [← hnext n] at hfree ⊢
      refine ih (fun i hi => ?_) hfree (Nat.le_of_succ_le_succ hn)
      rw [hnext i]
      exact hused (i + 1) (Nat.succ_lt_succ hi)

/-- The search comes to the first candidate that is not in use, if one comes soon enough. -/
theorem exists_freeAfter {n : Nat} (hn : n ≤ used.toFinset.card + 1)
    (hfree : candidate seed hash n ∉ used) :
    ∃ n ≤ used.toFinset.card + 1, FreeAfter used seed hash n ∧
      freshId used seed hash = candidate seed hash n := by
  classical
  have hex : ∃ n, candidate seed hash n ∉ used := ⟨n, hfree⟩
  have hfirst : FreeAfter used seed hash (Nat.find hex) :=
    ⟨fun i hi => not_not.1 (Nat.find_min hex hi), Nat.find_spec hex⟩
  have hle : Nat.find hex ≤ used.toFinset.card + 1 := (Nat.find_min' hex hfree).trans hn
  refine ⟨Nat.find hex, hle, hfirst, ?_⟩
  have hfuel := hle.trans (Nat.succ_le_succ used.toFinset_card_le)
  have hfound := firstUnused_eq (m := 0) (n := Nat.find hex)
    (fun i hi => (Nat.zero_add i).symm ▸ hfirst.1 i hi) ((Nat.zero_add _).symm ▸ hfirst.2) hfuel
  rwa [Nat.zero_add] at hfound

/-- A fresh name is not in use. -/
theorem freshId_notMem (hsize : used.length + 1 < 2 ^ 64) : freshId used seed hash ∉ used := by
  have hcard := used.toFinset_card_le
  obtain ⟨n, hn, hfree⟩ := exists_free_of_card_lt seed hash
    (show used.toFinset.card < 2 ^ 64 by omega)
  obtain ⟨n, -, hfirst, hid⟩ := exists_freeAfter hn fun h => hfree (List.mem_toFinset.2 h)
  rw [hid]
  exact hfirst.2

/-- Slots give different hashes and hashes give different names, so the search for a name has an
end: after one more probe than there are names in use it is at one that is not in use. It would not
only if all names were in use, and there are `2 ^ 64` of them. -/
theorem freshId_ends (seed hash : UInt64) :
    Function.Injective (Hash.mix seed hash) ∧ (∀ label, Function.Injective (Hash.toId label)) ∧
    ∀ used : List String,
      ((∃ n ≤ used.toFinset.card + 1,
          FreeAfter used seed hash n ∧ freshId used seed hash = candidate seed hash n) ↔
        ∃ x, Hash.toId "isl" x ∉ used) ∧
      (used.toFinset.card < 2 ^ 64 → ∃ x, Hash.toId "isl" x ∉ used) := by
  refine ⟨fun _ _ => Hash.mix_inj, fun _ _ _ => Hash.toId_inj, fun used => ⟨⟨?_, ?_⟩, fun h => ?_⟩⟩
  · rintro ⟨n, -, hfirst, -⟩
    obtain ⟨x, hx⟩ := exists_hash seed hash n
    exact ⟨x, hx ▸ hfirst.2⟩
  · rintro ⟨x, hx⟩
    obtain ⟨n, hn, hfree⟩ := exists_free seed hash
      fun h => hx (List.mem_toFinset.1 h)
    exact exists_freeAfter hn fun h => hfree (List.mem_toFinset.2 h)
  · obtain ⟨n, -, hfree⟩ := exists_free_of_card_lt seed hash h
    obtain ⟨x, hx⟩ := exists_hash seed hash n
    exact ⟨x, fun hmem => hfree (List.mem_toFinset.2 (hx ▸ hmem))⟩

/-- A hash that the first slot gives back, and the one name that comes of both: the name behind them
is found at the second probe. -/
theorem freshId_ends_fixed : ["isl-0000000000000000"].toFinset.card < 2 ^ 64 ∧
    ∃ n ≤ 2, FreeAfter ["isl-0000000000000000"] 0x2e4ab5cd2e6d12fd 0 n ∧ 1 < n := by
  have hcard : ["isl-0000000000000000"].toFinset.card = 1 := rfl
  obtain ⟨hends, hsome⟩ := (freshId_ends 0x2e4ab5cd2e6d12fd 0).2.2 ["isl-0000000000000000"]
  have hsize : ["isl-0000000000000000"].toFinset.card < 2 ^ 64 := by rw [hcard]; decide
  obtain ⟨n, hn, hfirst, -⟩ := hends.2 (hsome hsize)
  rw [hcard] at hn
  refine ⟨hsize, n, hn, hfirst, ?_⟩
  by_contra hle
  have htaken : ∀ i < 2, candidate 0x2e4ab5cd2e6d12fd 0 i ∈ ["isl-0000000000000000"] := by
    decide +kernel
  exact hfirst.2 (htaken n (by omega))

end Island

end Archipelago
