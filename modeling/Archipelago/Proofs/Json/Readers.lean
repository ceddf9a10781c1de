import Archipelago.Proofs.Json.Numbers
import Mathlib.Data.List.TakeWhile

/-!
# Readers that look no further

A reader of JSON looks at nothing behind what it takes but the sign that ends it, so that it reads
the same from a text that is cut off somewhere behind. This is said of a few readers, and of what is
put together from them, which numbers are.
-/

namespace Archipelago.Json

/-! ## Readers out of readers -/

section

variable {α β : Type}

/-- Takes nothing. -/
def give (a : α) : Reader α := fun cs => some (a, cs)

/-- One reader behind another, which it may depend on. -/
def andThen (v : Reader α) (f : α → Reader β) : Reader β := fun cs =>
  (v cs).bind fun r => f r.1 r.2

/-- What is read behind a word, or else what is read where it does not stand. -/
def behind (word : Chars) (v other : Reader α) : Reader α := fun cs =>
  if word.isPrefixOf cs then v (cs.drop word.length) else other cs

/-- Reads blanks, or nothing. -/
def blanks : Reader Unit := fun cs => some ((), skipBlanks cs)

theorem andThen_blanks (f : Unit → Reader β) (cs : Chars) :
    andThen blanks f cs = f () (skipBlanks cs) := rfl

variable {v v' other other' : Reader α} {word cs : Chars} {n m : Nat}

/-- Behind its word the first reader goes on. -/
theorem behind_append (v other : Reader α) (word cs : Chars) :
    behind word v other (word ++ cs) = v cs := by
  unfold behind
  rw [if_pos (List.isPrefixOf_iff_prefix.2 (List.prefix_append _ _)), List.drop_left]

theorem behind_cons (v other : Reader α) (c : Char) (cs : Chars) :
    behind [c] v other (c :: cs) = v cs := behind_append v other [c] cs

/-- Where the word does not stand the other reader goes on. -/
theorem behind_of_not (h : ∀ cs', cs ≠ word ++ cs') : behind word v other cs = other cs := by
  refine if_neg fun hword => ?_
  obtain ⟨cs', hcs⟩ := List.isPrefixOf_iff_prefix.1 hword
  exact h cs' hcs.symm

/-- What is read has been read by one of the two. -/
theorem behind_eq_some {r : α × Chars} (h : behind word v other cs = some r) :
    (∃ cs', cs = word ++ cs' ∧ v cs' = some r) ∨ other cs = some r := by
  unfold behind at h
  split at h
  · rename_i hword
    obtain ⟨cs', rfl⟩ := List.isPrefixOf_iff_prefix.1 hword
    rw [List.drop_left] at h
    exact .inl ⟨cs', rfl, h⟩
  · exact .inr h

/-- What is dropped does not depend on what has not been reached. -/
theorem dropWhile_cut {p : Char → Bool} {rest tail : Chars}
    (h : (cs ++ tail).dropWhile p = rest ++ tail) : cs.dropWhile p = rest := by
  rw [List.dropWhile_append] at h
  split at h
  · rename_i hall
    have hlength : (rest ++ tail).length ≤ tail.length := h ▸ (List.dropWhile_suffix p).length_le
    rw [List.length_append] at hlength
    obtain rfl : rest = [] := List.length_eq_zero_iff.1 (by omega)
    exact List.isEmpty_iff.1 hall
  · exact List.append_cancel_right h

theorem takeWhile_cut {p : Char → Bool} {rest tail : Chars}
    (h : (cs ++ tail).dropWhile p = rest ++ tail) : (cs ++ tail).takeWhile p = cs.takeWhile p := by
  have hall : (cs ++ tail).takeWhile p ++ rest ++ tail = cs ++ tail := by
    rw [List.append_assoc, ← h, List.takeWhile_append_dropWhile]
  have hcs : cs.takeWhile p ++ rest = cs := by
    rw [← dropWhile_cut h, List.takeWhile_append_dropWhile]
  exact List.append_cancel_right ((List.append_cancel_right hall).trans hcs.symm)

theorem skipBlanks_suffix (cs : Chars) : skipBlanks cs <:+ cs := List.dropWhile_suffix _

/-- What the reader leaves is the end of the text. -/
def Leaves (v : Reader α) : Prop := ∀ {cs rest : Chars} {a : α}, v cs = some (a, rest) → rest <:+ cs

theorem suffix_cut {rest tail : Chars} (h : rest ++ tail <:+ cs ++ tail) : rest <:+ cs := by
  obtain ⟨front, hfront⟩ := h
  refine ⟨front, (List.append_left_inj tail).1 ?_⟩
  rw [List.append_assoc, hfront]

/-- What `v` takes of a text, `v'` takes of it where it is cut off behind that and has at most `n`
signs. -/
structure Cuts (n : Nat) (v v' : Reader α) : Prop where
  leaves : Leaves v
  cut : ∀ {cs rest tail : Chars} {a : α}, cs.length ≤ n → v (cs ++ tail) = some (a, rest ++ tail) →
    v' cs = some (a, rest)

namespace Cuts

/-- Less may be asked of a reader. -/
theorem mono (h : Cuts n v v') (hm : m ≤ n) : Cuts m v v' :=
  ⟨h.leaves, fun hcs => h.cut (Nat.le_trans hcs hm)⟩

theorem none (n : Nat) (v' : Reader α) : Cuts n (fun _ => none) v' := ⟨nofun, nofun⟩

theorem give (n : Nat) (a : α) : Cuts n (give a) (give a) := by
  refine ⟨fun h => ?_, fun _ h => ?_⟩
  · obtain ⟨-, rfl⟩ := Prod.mk.inj (Option.some.inj h)
    exact List.suffix_refl _
  · obtain ⟨rfl, hcs⟩ := Prod.mk.inj (Option.some.inj h)
    rw [List.append_cancel_right hcs]
    rfl

/-- Two readers, one behind the other, are cut if each of them is. -/
theorem andThen {f f' : α → Reader β} (h : Cuts n v v') (hf : ∀ a, Cuts n (f a) (f' a)) :
    Cuts n (andThen v f) (andThen v' f') := by
  refine ⟨fun hread => ?_, fun {cs rest tail b} hcs hread => ?_⟩
  · obtain ⟨⟨a, mid⟩, ha, hb⟩ := Option.bind_eq_some_iff.1 hread
    exact ((hf a).leaves hb).trans (h.leaves ha)
  · obtain ⟨⟨a, mid⟩, ha, hb⟩ := Option.bind_eq_some_iff.1 hread
    obtain ⟨front, rfl⟩ := (hf a).leaves hb
    rw [← List.append_assoc] at ha hb
    have hmid := (h.leaves ha).length_le
    simp only [List.length_append] at hmid
    refine Option.bind_eq_some_iff.2 ⟨(a, front ++ rest), h.cut hcs ha, (hf a).cut ?_ hb⟩
    rw [List.length_append]
    omega

/-- Behind a word the readers need to be cut for shorter texts only. -/
theorem behind (hword : word ≠ []) (hleaves : Leaves v) (h : ∀ m < n, Cuts m v v')
    (hother : Cuts n other other') : Cuts n (behind word v other) (behind word v' other') := by
  refine ⟨fun {cs rest a} hread => ?_, fun {cs rest tail a} hcs hread => ?_⟩
  · unfold Json.behind at hread
    split at hread
    · exact (hleaves hread).trans (List.drop_suffix _ _)
    · exact hother.leaves hread
  · by_cases hstands : ∃ cs', cs ++ tail = word ++ cs'
    · obtain ⟨cs', hcs'⟩ := hstands
      rw [hcs', behind_append] at hread
      obtain ⟨front, rfl⟩ := hleaves hread
      have hall : cs = word ++ (front ++ rest) := by
        refine (List.append_left_inj tail).1 ?_
        simpa only [List.append_assoc] using hcs'
      have hpos := List.length_pos_iff.2 hword
      rw [hall, List.length_append] at hcs
      rw [hall, behind_append]
      rw [← List.append_assoc] at hread
      exact (h _ (by omega)).cut (Nat.le_refl _) hread
    · have hnot : ∀ cs', cs ≠ word ++ cs' := by
        rintro cs' rfl
        exact hstands ⟨cs' ++ tail, List.append_assoc _ _ _⟩
      rw [behind_of_not fun cs' hcs' => hstands ⟨cs', hcs'⟩] at hread
      rw [behind_of_not hnot]
      exact hother.cut hcs hread

theorem behind_self (hword : word ≠ []) (h : Cuts n v v') (hother : Cuts n other other') :
    Cuts n (Json.behind word v other) (Json.behind word v' other') :=
  behind hword h.leaves (fun _ hm => h.mono (Nat.le_of_lt hm)) hother

theorem blanks (n : Nat) : Cuts n blanks blanks := by
  refine ⟨fun {cs rest a} hread => ?_, fun {cs rest tail a} hcs hread => ?_⟩
  · obtain ⟨-, rfl⟩ := Prod.mk.inj (Option.some.inj hread)
    exact skipBlanks_suffix cs
  · obtain ⟨-, hrest⟩ := Prod.mk.inj (Option.some.inj hread)
    rw [← dropWhile_cut hrest]
    rfl

end Cuts

end

/-! ## Numbers -/

namespace Number

/-- Digits, if there are any that may stand there. -/
def digitsUnless (p : Chars → Bool) : Reader Chars := fun cs =>
  if p (digits cs).1 then none else some (digits cs)

/-- Digits are taken as far as they go. -/
theorem cuts_digitsUnless (p : Chars → Bool) (n : Nat) :
    Cuts n (digitsUnless p) (digitsUnless p) := by
  refine ⟨fun {cs rest ds} hread => ?_, fun {cs rest tail ds} hcs hread => ?_⟩
  · unfold digitsUnless at hread
    split at hread
    · cases hread
    · obtain ⟨-, rfl⟩ := Prod.mk.inj (Option.some.inj hread)
      exact digits_suffix cs
  · unfold digitsUnless at hread ⊢
    split at hread
    · cases hread
    · rename_i hp
      obtain ⟨rfl, hrest⟩ := Prod.mk.inj (Option.some.inj hread)
      have htake : (digits (cs ++ tail)).1 = (digits cs).1 := takeWhile_cut hrest
      rw [htake] at hp
      rw [if_neg hp, takeWhile_cut hrest, ← dropWhile_cut hrest]
      rfl

/-- The parts of a number in terms of the combinators. -/
theorem exponentDigits_eq (negative : Bool) : exponentDigits negative =
    andThen (digitsUnless List.isEmpty) fun ds =>
      give (if negative then -(Decimal.digitsValue ds : Int) else Decimal.digitsValue ds) := by
  funext cs
  unfold exponentDigits andThen digitsUnless
  split <;> rfl

theorem exponent_eq : exponent =
    behind ['+'] (exponentDigits false)
      (behind ['-'] (exponentDigits true) (exponentDigits false)) := by
  funext cs
  cases cs with
  | nil => rfl
  | cons c cs =>
    rw [exponent_cons]
    by_cases hplus : c = '+'
    · subst hplus
      rfl
    by_cases hminus : c = '-'
    · subst hminus
      rfl
    rw [if_neg hplus, if_neg hminus, behind_of_not, behind_of_not]
    · exact fun cs' he => hminus (List.cons.inj he).1
    · exact fun cs' he => hplus (List.cons.inj he).1

theorem fraction_eq : fraction =
    behind ['.'] (andThen (digitsUnless List.isEmpty) fun ds => give (some ds)) (give none) := by
  funext cs
  unfold fraction
  split
  · rename_i cs
    rw [behind_cons]
    unfold andThen digitsUnless
    dsimp only
    split <;> rfl
  · rename_i hpoint
    rw [behind_of_not fun cs' he => hpoint cs' he]
    rfl

theorem optionalExponent_eq : optionalExponent =
    behind ['e'] (andThen exponent fun e => give (some e))
      (behind ['E'] (andThen exponent fun e => give (some e)) (give none)) := by
  funext cs
  unfold optionalExponent
  split
  · exact Option.map_eq_bind
  · exact Option.map_eq_bind
  · rename_i hlower hupper
    rw [behind_of_not fun cs' he => hlower cs' he, behind_of_not fun cs' he => hupper cs' he]
    rfl

theorem unsigned_eq (negative : Bool) : unsigned negative =
    andThen (digitsUnless fun ds => ds.isEmpty || (ds.head? = some '0' && ds.length != 1))
      fun whole => andThen fraction fun frac => andThen optionalExponent fun exp =>
        give (value negative whole frac exp) := by
  funext cs
  unfold unsigned andThen digitsUnless
  dsimp only
  split <;> rfl

theorem read_eq : read = behind ['-'] (unsigned true) (unsigned false) := by
  funext cs
  unfold read
  split
  · rfl
  · rename_i hminus
    rw [behind_of_not fun cs' he => hminus cs' he]

theorem cuts_exponent (n : Nat) : Cuts n exponent exponent := by
  have hdigits (negative : Bool) : Cuts n (exponentDigits negative) (exponentDigits negative) := by
    rw [exponentDigits_eq]
    exact (cuts_digitsUnless _ n).andThen fun _ => .give n _
  rw [exponent_eq]
  exact .behind_self nofun (hdigits false) (.behind_self nofun (hdigits true) (hdigits false))

theorem cuts_fraction (n : Nat) : Cuts n fraction fraction := by
  rw [fraction_eq]
  exact .behind_self nofun ((cuts_digitsUnless _ n).andThen fun _ => .give n _) (.give n _)

theorem cuts_optionalExponent (n : Nat) : Cuts n optionalExponent optionalExponent := by
  have hexponent : Cuts n (andThen exponent fun e => give (some e)) _ :=
    (cuts_exponent n).andThen fun _ => .give n _
  rw [optionalExponent_eq]
  exact .behind_self nofun hexponent (.behind_self nofun hexponent (.give n _))

/-- What is behind a number does not matter to it. -/
theorem cuts_unsigned (negative : Bool) (n : Nat) :
    Cuts n (unsigned negative) (unsigned negative) := by
  rw [unsigned_eq]
  exact (cuts_digitsUnless _ n).andThen fun _ => (cuts_fraction n).andThen fun _ =>
    (cuts_optionalExponent n).andThen fun _ => .give n _

/-- What is behind a number does not matter to it. -/
theorem cuts_read (n : Nat) : Cuts n read read := by
  rw [read_eq]
  exact .behind_self nofun (cuts_unsigned true n) (cuts_unsigned false n)

/-! ## How numbers end -/

/-- What is taken of a text ends in a digit. -/
def EndsInDigit (cs rest : Chars) : Prop := ∃ d, d.isDigit = true ∧ d :: rest <:+ cs

theorem EndsInDigit.mono {cs cs' rest : Chars} (h : EndsInDigit cs rest) (hcs : cs <:+ cs') :
    EndsInDigit cs' rest := by
  obtain ⟨d, hd, hsuffix⟩ := h
  exact ⟨d, hd, hsuffix.trans hcs⟩

theorem endsInDigit_of_digits {p : Chars → Bool} (hp : p [] = true) {cs rest ds : Chars}
    (h : digitsUnless p cs = some (ds, rest)) : EndsInDigit cs rest := by
  unfold digitsUnless at h
  split at h
  · cases h
  · rename_i hsome
    obtain ⟨-, rfl⟩ := Prod.mk.inj (Option.some.inj h)
    have hall : cs.takeWhile Char.isDigit ++ cs.dropWhile Char.isDigit = cs :=
      List.takeWhile_append_dropWhile
    rcases List.eq_nil_or_concat' (cs.takeWhile Char.isDigit) with hnil | ⟨front, d, hfront⟩
    · exact absurd ((congrArg p hnil).trans hp) hsome
    · have hd : d ∈ cs.takeWhile Char.isDigit := by
        rw [hfront]
        exact List.mem_append_right _ (List.mem_singleton_self d)
      rw [hfront, List.append_assoc] at hall
      exact ⟨d, List.mem_takeWhile_imp hd, front, hall⟩

theorem endsInDigit_of_exponent {cs rest : Chars} {e : Int} (h : exponent cs = some (e, rest)) :
    EndsInDigit cs rest := by
  have hdigits {negative : Bool} {cs : Chars} (h : exponentDigits negative cs = some (e, rest)) :
      EndsInDigit cs rest := by
    rw [exponentDigits_eq] at h
    obtain ⟨⟨ds, _⟩, hds, he⟩ := Option.bind_eq_some_iff.1 h
    obtain ⟨-, rfl⟩ := Prod.mk.inj (Option.some.inj he)
    exact endsInDigit_of_digits rfl hds
  rw [exponent_eq] at h
  rcases behind_eq_some h with ⟨cs, rfl, h⟩ | h
  · exact (hdigits h).mono (List.suffix_append _ _)
  rcases behind_eq_some h with ⟨cs, rfl, h⟩ | h
  · exact (hdigits h).mono (List.suffix_append _ _)
  · exact hdigits h

theorem endsInDigit_of_fraction {cs rest : Chars} {frac : Option Chars}
    (h : fraction cs = some (frac, rest)) : cs = rest ∨ EndsInDigit cs rest := by
  rw [fraction_eq] at h
  rcases behind_eq_some h with ⟨cs, rfl, h⟩ | h
  · obtain ⟨⟨ds, _⟩, hds, he⟩ := Option.bind_eq_some_iff.1 h
    obtain ⟨-, rfl⟩ := Prod.mk.inj (Option.some.inj he)
    exact .inr ((endsInDigit_of_digits rfl hds).mono (List.suffix_append _ _))
  · exact .inl (Prod.mk.inj (Option.some.inj h)).2

theorem endsInDigit_of_optionalExponent {cs rest : Chars} {exp : Option Int}
    (h : optionalExponent cs = some (exp, rest)) : cs = rest ∨ EndsInDigit cs rest := by
  have hexponent {cs : Chars}
      (h : andThen exponent (fun e => give (some e)) cs = some (exp, rest)) :
      EndsInDigit cs rest := by
    obtain ⟨⟨e, _⟩, he, hgive⟩ := Option.bind_eq_some_iff.1 h
    obtain ⟨-, rfl⟩ := Prod.mk.inj (Option.some.inj hgive)
    exact endsInDigit_of_exponent he
  rw [optionalExponent_eq] at h
  rcases behind_eq_some h with ⟨cs, rfl, h⟩ | h
  · exact .inr ((hexponent h).mono (List.suffix_append _ _))
  rcases behind_eq_some h with ⟨cs, rfl, h⟩ | h
  · exact .inr ((hexponent h).mono (List.suffix_append _ _))
  · exact .inl (Prod.mk.inj (Option.some.inj h)).2

theorem endsInDigit_of_unsigned {negative : Bool} {cs rest : Chars} {j : Json}
    (h : unsigned negative cs = some (j, rest)) : EndsInDigit cs rest := by
  rw [unsigned_eq] at h
  obtain ⟨⟨whole, mid⟩, hwhole, h⟩ := Option.bind_eq_some_iff.1 h
  obtain ⟨⟨frac, mid'⟩, hfrac, h⟩ := Option.bind_eq_some_iff.1 h
  obtain ⟨⟨exp, _⟩, hexp, h⟩ := Option.bind_eq_some_iff.1 h
  obtain ⟨-, rfl⟩ := Prod.mk.inj (Option.some.inj h)
  have hmid : mid <:+ cs := (cuts_digitsUnless _ 0).leaves hwhole
  have hmid' : mid' <:+ cs := (fraction_suffix hfrac).trans hmid
  rcases endsInDigit_of_optionalExponent hexp with rfl | hdigit
  · rcases endsInDigit_of_fraction hfrac with rfl | hdigit
    · exact endsInDigit_of_digits rfl hwhole
    · exact hdigit.mono hmid
  · exact hdigit.mono hmid'

/-- A number ends in a digit. -/
theorem endsInDigit_of_read {cs rest : Chars} {j : Json} (h : read cs = some (j, rest)) :
    EndsInDigit cs rest := by
  rw [read_eq] at h
  rcases behind_eq_some h with ⟨cs, rfl, h⟩ | h
  · exact (endsInDigit_of_unsigned h).mono (List.suffix_append _ _)
  · exact endsInDigit_of_unsigned h

/-- What is read as a number is one, unless it is out of range. -/
theorem read_cases {cs rest : Chars} {j : Json} (h : read cs = some (j, rest)) :
    j = .unreadable ∨ (∃ n, j = .int n) ∨ ∃ x, j = .float x := by
  have hunsigned {negative : Bool} {cs : Chars} (h : unsigned negative cs = some (j, rest)) :
      j = .unreadable ∨ (∃ n, j = .int n) ∨ ∃ x, j = .float x := by
    rw [unsigned_eq] at h
    obtain ⟨⟨whole, mid⟩, -, h⟩ := Option.bind_eq_some_iff.1 h
    obtain ⟨⟨frac, mid'⟩, -, h⟩ := Option.bind_eq_some_iff.1 h
    obtain ⟨⟨exp, _⟩, -, h⟩ := Option.bind_eq_some_iff.1 h
    obtain ⟨rfl, -⟩ := Prod.mk.inj (Option.some.inj h)
    unfold value
    dsimp only
    split
    · split
      · exact .inr (.inl ⟨_, rfl⟩)
      · split
        · exact .inr (.inr ⟨_, rfl⟩)
        · exact .inr (.inl ⟨_, rfl⟩)
    · split
      · exact .inr (.inr ⟨_, rfl⟩)
      · exact .inl rfl
  rw [read_eq] at h
  rcases behind_eq_some h with ⟨cs, -, h⟩ | h
  · exact hunsigned h
  · exact hunsigned h

end Number

end Archipelago.Json
