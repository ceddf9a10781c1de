import Archipelago.Text.Letter
import Mathlib.Data.List.DropRight
import Mathlib.Data.List.TakeWhile

/-!
# Classes of characters in a text

What is dropped at the ends of a text, and what is taken from its front up to the end of a class.
-/

namespace Archipelago.Text

/-! ## Blanks around a text -/

/-- What is left starts with a character outside the class. -/
theorem head_stripWhere {p : Char → Bool} {cs rest : List Char} {c : Char}
    (h : stripWhere p cs = c :: rest) : p c = false := by
  have hprefix : c :: rest <+: cs.dropWhile p := by
    rw [← h]
    exact List.rdropWhile_prefix p (cs.dropWhile p)
  obtain ⟨more, hmore⟩ := hprefix
  have := List.head_dropWhile_not p (l := cs) (by rw [← hmore]; simp)
  simpa [← hmore] using this

/-- Nothing more is dropped from what has been stripped. -/
theorem stripWhere_stripWhere (p : Char → Bool) (cs : List Char) :
    stripWhere p (stripWhere p cs) = stripWhere p cs := by
  have hfront : (stripWhere p cs).dropWhile p = stripWhere p cs := by
    cases hs : stripWhere p cs with
    | nil => rfl
    | cons c rest => rw [List.dropWhile_cons_of_neg (by simp [head_stripWhere hs])]
  have hback : ∀ cs, stripWhere p cs = (cs.dropWhile p).rdropWhile p := fun _ => rfl
  rw [hback, hfront, hback, List.rdropWhile_idempotent]

@[simp] theorem trim_trim (s : String) : trim (trim s) = trim s := by
  unfold trim
  rw [String.toList_ofList, stripWhere_stripWhere]

theorem stripWhere_of_forall {p : Char → Bool} {cs : List Char} (h : ∀ c ∈ cs, p c = false) :
    stripWhere p cs = cs := by
  have hdrop : ∀ cs : List Char, (∀ c ∈ cs, p c = false) → cs.dropWhile p = cs := by
    intro cs h
    cases cs with
    | nil => rfl
    | cons c cs => rw [List.dropWhile_cons_of_neg (by simp [h c])]
  unfold stripWhere
  rw [hdrop cs h, hdrop cs.reverse fun c hc => h c (List.mem_reverse.1 hc), List.reverse_reverse]

/-! ## Classes -/

/-- Two tables that share no code point. -/
def Apart (rs bs : List (Nat × Nat)) : Prop := ∀ r ∈ rs, ∀ b ∈ bs, r.2 < b.1 ∨ b.2 < r.1

instance (rs bs : List (Nat × Nat)) : Decidable (Apart rs bs) := by
  unfold Apart
  infer_instance

theorem inRanges_eq_false {rs bs : List (Nat × Nat)} {c : Char} (h : Apart rs bs)
    (hc : inRanges rs c = true) : inRanges bs c = false := by
  obtain ⟨r, hr, hc⟩ := List.any_eq_true.1 hc
  rw [Bool.and_eq_true, decide_eq_true_eq, decide_eq_true_eq] at hc
  refine List.any_eq_false.2 fun b hb hcb => ?_
  rw [Bool.and_eq_true, decide_eq_true_eq, decide_eq_true_eq] at hcb
  have := h r hr b hb
  omega

theorem not_isBlank_of_isAlphanum {c : Char} (h : c.isAlphanum = true) : isBlank c = false := by
  have hascii : inRanges [(0x30, 0x39), (0x41, 0x5a), (0x61, 0x7a)] c = true := by
    have hval : c.val.toNat = c.toNat := rfl
    delta Char.isAlphanum Char.isAlpha Char.isUpper Char.isLower Char.isDigit at h
    simp [UInt32.le_iff_toNat_le, hval] at h
    simp [inRanges]
    omega
  exact inRanges_eq_false (by decide) hascii

theorem not_isBlank_of_isLetterOrDigit {c : Char} (h : isLetterOrDigit c = true) :
    isBlank c = false := by
  unfold isLetterOrDigit at h
  split at h
  · exact not_isBlank_of_isAlphanum h
  · rcases (Bool.or_eq_true _ _).mp h with h | h
    · exact inRanges_eq_false (by decide +kernel) h
    · exact inRanges_eq_false (by decide +kernel) h

/-! ## Up to the end of a class -/

/-- No character of the class stands in front. -/
def Stops (p : Char → Bool) (cs : List Char) : Prop := ∀ c ∈ cs.head?, p c = false

theorem stops_cons {p : Char → Bool} {c : Char} {cs : List Char} (h : p c = false) :
    Stops p (c :: cs) := by
  rintro d hd
  obtain rfl := Option.some.inj hd
  exact h

/-- Characters of a class are split off from what does not go on with it. -/
theorem split_of_stops {p : Char → Bool} {taken rest : List Char} (hall : ∀ c ∈ taken, p c = true)
    (hstops : Stops p rest) :
    (taken ++ rest).takeWhile p = taken ∧ (taken ++ rest).dropWhile p = rest := by
  have hnone : rest.takeWhile p = [] ∧ rest.dropWhile p = rest := by
    cases rest with
    | nil => exact ⟨rfl, rfl⟩
    | cons c cs =>
      rw [List.takeWhile_cons, List.dropWhile_cons, hstops c rfl]
      exact ⟨rfl, rfl⟩
  rw [List.takeWhile_append_of_pos hall, List.dropWhile_append_of_pos hall, hnone.1, hnone.2,
    List.append_nil]
  exact ⟨rfl, rfl⟩

/-- What stands between characters of a class, and neither starts nor ends with one. -/
theorem stripWhere_append {p : Char → Bool} {lead cs trail : List Char}
    (hlead : ∀ c ∈ lead, p c = true) (htrail : ∀ c ∈ trail, p c = true) (hfirst : Stops p cs)
    (hlast : Stops p cs.reverse) (hne : cs ≠ []) : stripWhere p (lead ++ (cs ++ trail)) = cs := by
  have hstops : Stops p (cs ++ trail) := by
    cases cs with
    | nil => exact absurd rfl hne
    | cons c cs => exact stops_cons (hfirst c rfl)
  have hreverse : ∀ c ∈ trail.reverse, p c = true := fun c hc => htrail c (List.mem_reverse.1 hc)
  unfold stripWhere
  rw [(split_of_stops hlead hstops).2, List.reverse_append, (split_of_stops hreverse hlast).2,
    List.reverse_reverse]

end Archipelago.Text
