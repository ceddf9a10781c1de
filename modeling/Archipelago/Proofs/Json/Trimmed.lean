import Archipelago.Proofs.Json.Readers
import Archipelago.Proofs.Json.Reading
import Archipelago.Proofs.Text

/-!
# JSON text without the blanks around it

Strings, lists, objects and with them all values are read the same whatever stands behind. Within a
string a reader does look further, for the second half of a surrogate pair, but never beyond the
closing quote. Bounds that only have to exceed the length of a text can be any that do. A value
neither starts nor ends with a blank, whatever counts as one, and so a document is read just the
same when the blanks around it have been dropped.
-/

namespace Archipelago.Json

/-! ## Strings -/

theorem hex4_leaves : Leaves hex4 := by
  intro cs rest n h
  unfold hex4 at h
  split at h
  · rename_i a b c d cs
    obtain ⟨_, -, h⟩ := Option.bind_eq_some_iff.1 h
    obtain ⟨_, -, h⟩ := Option.bind_eq_some_iff.1 h
    obtain ⟨_, -, h⟩ := Option.bind_eq_some_iff.1 h
    obtain ⟨_, -, h⟩ := Option.bind_eq_some_iff.1 h
    obtain ⟨-, rfl⟩ := Prod.mk.inj (Option.some.inj h)
    exact ⟨[a, b, c, d], rfl⟩
  · cases h

/-- No closing quote is among the four digits of a number. -/
theorem hex4_cut {cs rest tail : Chars} {n : Nat} (h : hex4 (cs ++ tail) = some (n, rest))
    (hquote : '"' ∈ cs) : ∃ rest', rest = rest' ++ tail ∧ hex4 cs = some (n, rest') := by
  have hne {c : Char} {k : Nat} (hc : Text.hexValue? c = some k) : '"' ≠ c := by
    rintro rfl
    cases hc
  unfold hex4 at h
  split at h
  · rename_i a b c d cs' hcs
    obtain ⟨va, ha, h⟩ := Option.bind_eq_some_iff.1 h
    obtain ⟨vb, hb, h⟩ := Option.bind_eq_some_iff.1 h
    obtain ⟨vc, hc, h⟩ := Option.bind_eq_some_iff.1 h
    obtain ⟨vd, hd, h⟩ := Option.bind_eq_some_iff.1 h
    obtain ⟨rfl, rfl⟩ := Prod.mk.inj (Option.some.inj h)
    have hdigit : '"' ∉ [a, b, c, d] := by
      simp only [List.mem_cons, List.not_mem_nil, or_false, not_or]
      exact ⟨hne ha, hne hb, hne hc, hne hd⟩
    rcases List.append_eq_append_iff.1 (show cs ++ tail = [a, b, c, d] ++ cs' from hcs) with
      ⟨front, hall, -⟩ | ⟨rest, rfl, rfl⟩
    · exact absurd (hall ▸ List.mem_append_left _ hquote) hdigit
    · refine ⟨rest, rfl, ?_⟩
      simp only [hex4, List.cons_append, List.nil_append, ha, hb, hc, hd, Option.bind_eq_bind,
        Option.bind_some]
  · cases h

/-- The second half of a surrogate pair, if it stands there. -/
def lowHalf (high : Nat) : Reader (Option Char) :=
  behind ['\\', 'u']
    (fun cs => (hex4 cs).bind fun r =>
      if 0xdc00 ≤ r.1 && r.1 < 0xe000 then
        some (some (Char.ofNat (0x10000 + (high - 0xd800) * 0x400 + (r.1 - 0xdc00))), r.2)
      else some (none, '\\' :: 'u' :: cs))
    (give none)

theorem lowHalf_append (high : Nat) (cs : Chars) :
    lowHalf high (['\\', 'u'] ++ cs) = (hex4 cs).bind fun r =>
      if 0xdc00 ≤ r.1 && r.1 < 0xe000 then
        some (some (Char.ofNat (0x10000 + (high - 0xd800) * 0x400 + (r.1 - 0xdc00))), r.2)
      else some (none, '\\' :: 'u' :: cs) :=
  behind_append _ _ _ _

theorem lowHalf_of_not {high : Nat} {cs : Chars} (h : ∀ cs', cs ≠ ['\\', 'u'] ++ cs') :
    lowHalf high cs = some (none, cs) :=
  behind_of_not h

/-- A character that is given by its number. -/
def unicode : Reader (Option Char) := fun cs =>
  (hex4 cs).bind fun r =>
    if 0xd800 ≤ r.1 && r.1 < 0xdc00 then lowHalf r.1 r.2
    else if 0xdc00 ≤ r.1 && r.1 < 0xe000 then some (none, r.2)
    else some (some (Char.ofNat r.1), r.2)

/-- An escape by code is read on its own, with half of a pair if need be. -/
theorem stringChar_unicode_eq (cs : Chars) : stringChar ('\\' :: 'u' :: cs) = unicode cs := by
  unfold stringChar unicode
  refine congrArg (hex4 cs).bind (funext fun r => ?_)
  obtain ⟨high, rest⟩ := r
  dsimp only
  split
  · split
    · exact (lowHalf_append high _).symm
    · rename_i hnot
      exact (lowHalf_of_not hnot).symm
  · rfl

theorem stringChar_escape_eq {c : Char} (hc : c ≠ 'u') (cs : Chars) :
    stringChar ('\\' :: c :: cs) = (simpleEscape? c).map fun c => (some c, cs) := by
  rw [stringChar]
  exact hc

theorem stringChar_plain_eq {c : Char} (hc : c ≠ '\\') (cs : Chars) :
    stringChar (c :: cs) = if c.toNat < 0x20 then none else some (some c, cs) := by
  rw [stringChar]
  · simp [hc]
  · exact fun cs' he => absurd he hc
  · exact fun c' cs' he => absurd he hc

theorem lowHalf_leaves (high : Nat) : Leaves (lowHalf high) := by
  intro cs rest c h
  by_cases hstands : ∃ cs', cs = ['\\', 'u'] ++ cs'
  · obtain ⟨cs', rfl⟩ := hstands
    rw [lowHalf_append] at h
    obtain ⟨⟨low, rest'⟩, hlow, h⟩ := Option.bind_eq_some_iff.1 h
    dsimp only at h
    split at h
    · obtain ⟨-, rfl⟩ := Prod.mk.inj (Option.some.inj h)
      exact (hex4_leaves hlow).trans (List.suffix_append _ _)
    · obtain ⟨-, rfl⟩ := Prod.mk.inj (Option.some.inj h)
      exact List.suffix_refl _
  · rw [lowHalf_of_not fun cs' he => hstands ⟨cs', he⟩] at h
    obtain ⟨-, rfl⟩ := Prod.mk.inj (Option.some.inj h)
    exact List.suffix_refl _

theorem unicode_leaves : Leaves unicode := by
  intro cs rest c h
  obtain ⟨⟨k, mid⟩, hk, h⟩ := Option.bind_eq_some_iff.1 h
  refine List.IsSuffix.trans ?_ (hex4_leaves hk)
  dsimp only at h
  split at h
  · exact lowHalf_leaves _ h
  · split at h
    · obtain ⟨-, rfl⟩ := Prod.mk.inj (Option.some.inj h)
      exact List.suffix_refl _
    · obtain ⟨-, rfl⟩ := Prod.mk.inj (Option.some.inj h)
      exact List.suffix_refl _

/-- A character takes a sign at least. -/
theorem stringChar_suffix {d : Char} {cs rest : Chars} {c : Option Char}
    (h : stringChar (d :: cs) = some (c, rest)) : rest <:+ cs := by
  by_cases hslash : d = '\\'
  · subst hslash
    cases cs with
    | nil => cases h
    | cons e cs =>
      refine List.IsSuffix.trans ?_ (List.suffix_cons e cs)
      by_cases hu : e = 'u'
      · subst hu
        rw [stringChar_unicode_eq] at h
        exact unicode_leaves h
      · rw [stringChar_escape_eq hu] at h
        obtain ⟨_, -, he⟩ := Option.map_eq_some_iff.1 h
        obtain ⟨-, rfl⟩ := Prod.mk.inj he
        exact List.suffix_refl _
  · rw [stringChar_plain_eq hslash] at h
    split at h
    · cases h
    · obtain ⟨-, rfl⟩ := Prod.mk.inj (Option.some.inj h)
      exact List.suffix_refl _

section

variable {cs rest tail : Chars} {c : Option Char} (hquote : '"' ∈ rest)
include hquote

/-- What is behind the second half of a pair does not matter to it. -/
theorem lowHalf_cut {high : Nat} (h : lowHalf high (cs ++ tail) = some (c, rest ++ tail)) :
    lowHalf high cs = some (c, rest) := by
  have hcs : '"' ∈ cs := (suffix_cut (lowHalf_leaves high h)).subset hquote
  by_cases hstands : ∃ cs', cs ++ tail = ['\\', 'u'] ++ cs'
  · obtain ⟨cs', hcs'⟩ := hstands
    rw [hcs', lowHalf_append] at h
    rcases List.append_eq_append_iff.1 hcs' with ⟨front, hall, -⟩ | ⟨cs', rfl, rfl⟩
    · exact absurd (hall ▸ List.mem_append_left _ hcs) (by decide)
    · obtain ⟨⟨low, mid⟩, hlow, h⟩ := Option.bind_eq_some_iff.1 h
      obtain ⟨mid, rfl, hcut⟩ := hex4_cut hlow ((List.mem_append.1 hcs).resolve_left (by decide))
      rw [lowHalf_append, hcut, Option.bind_some]
      dsimp only at h ⊢
      split at h
      · rename_i hrange
        obtain ⟨rfl, hmid⟩ := Prod.mk.inj (Option.some.inj h)
        rw [if_pos hrange, List.append_cancel_right hmid]
      · rename_i hrange
        obtain ⟨rfl, hrest⟩ := Prod.mk.inj (Option.some.inj h)
        obtain rfl : ['\\', 'u'] ++ cs' = rest := (List.append_left_inj tail).1 hrest
        rw [if_neg hrange]
        rfl
  · rw [lowHalf_of_not fun cs' he => hstands ⟨cs', he⟩] at h
    obtain ⟨rfl, hrest⟩ := Prod.mk.inj (Option.some.inj h)
    rw [← List.append_cancel_right hrest, lowHalf_of_not]
    rintro cs' rfl
    exact hstands ⟨cs' ++ tail, List.append_assoc _ _ _⟩

/-- What is behind an escape does not matter to it. -/
theorem unicode_cut (h : unicode (cs ++ tail) = some (c, rest ++ tail)) :
    unicode cs = some (c, rest) := by
  have hcs : '"' ∈ cs := (suffix_cut (unicode_leaves h)).subset hquote
  obtain ⟨⟨k, mid⟩, hk, h⟩ := Option.bind_eq_some_iff.1 h
  obtain ⟨mid, rfl, hcut⟩ := hex4_cut hk hcs
  unfold unicode
  rw [hcut, Option.bind_some]
  dsimp only at h ⊢
  split at h
  · rename_i hhigh
    rw [if_pos hhigh]
    exact lowHalf_cut hquote h
  · rename_i hhigh
    rw [if_neg hhigh]
    split at h
    · rename_i hlow
      obtain ⟨rfl, hmid⟩ := Prod.mk.inj (Option.some.inj h)
      rw [if_pos hlow, List.append_cancel_right hmid]
    · rename_i hlow
      obtain ⟨rfl, hmid⟩ := Prod.mk.inj (Option.some.inj h)
      rw [if_neg hlow, List.append_cancel_right hmid]

/-- A character within a string is read whatever stands behind the string. -/
theorem stringChar_cut {d : Char} (h : stringChar (d :: cs ++ tail) = some (c, rest ++ tail)) :
    stringChar (d :: cs) = some (c, rest) := by
  have hcs : '"' ∈ cs := (suffix_cut (stringChar_suffix h)).subset hquote
  by_cases hslash : d = '\\'
  · subst hslash
    cases cs with
    | nil => cases hcs
    | cons e cs =>
      by_cases hu : e = 'u'
      · subst hu
        rw [List.cons_append, List.cons_append, stringChar_unicode_eq] at h
        rw [stringChar_unicode_eq]
        exact unicode_cut hquote h
      · rw [List.cons_append, List.cons_append, stringChar_escape_eq hu] at h
        obtain ⟨e', he, h⟩ := Option.map_eq_some_iff.1 h
        obtain ⟨rfl, hrest⟩ := Prod.mk.inj h
        rw [stringChar_escape_eq hu, he, ← List.append_cancel_right hrest]
        rfl
  · rw [List.cons_append, stringChar_plain_eq hslash] at h
    rw [stringChar_plain_eq hslash]
    split at h
    · cases h
    · rename_i hlarge
      obtain ⟨rfl, hrest⟩ := Prod.mk.inj (Option.some.inj h)
      rw [if_neg hlarge, List.append_cancel_right hrest]

end

/-- A string ends with a quote. -/
theorem stringRest_closes {fuel : Nat} {acc : List Char} {whole : Bool} {cs rest : Chars}
    {s : Option String} (h : stringRest fuel acc whole cs = some (s, rest)) :
    '"' :: rest <:+ cs := by
  induction fuel generalizing acc whole cs with
  | zero => cases h
  | succ fuel ih =>
    unfold stringRest at h
    split at h
    · obtain ⟨-, rfl⟩ := Prod.mk.inj (Option.some.inj h)
      exact List.suffix_refl _
    · obtain ⟨⟨c, mid⟩, hc, h⟩ := Option.bind_eq_some_iff.1 h
      have hmid : '"' :: rest <:+ mid := by
        cases c with
        | some c => exact ih h
        | none => exact ih h
      cases cs with
      | nil => cases hc
      | cons d cs => exact hmid.trans ((stringChar_suffix hc).trans (List.suffix_cons d cs))

theorem stringRest_cons {d : Char} (hd : d ≠ '"') (fuel : Nat) (acc : List Char) (whole : Bool)
    (cs : Chars) : stringRest (fuel + 1) acc whole (d :: cs) =
      (stringChar (d :: cs)).bind fun r => match r.1 with
        | some c => stringRest fuel (c :: acc) whole r.2
        | none => stringRest fuel acc false r.2 := by
  rw [stringRest]
  · rfl
  · exact fun rest he => hd (List.cons.inj he).1

/-- What is behind the closing quote does not matter to a string. -/
theorem stringRest_cut {fuel fuel' : Nat} {acc : List Char} {whole : Bool} {cs rest tail : Chars}
    {s : Option String} (hcs : cs.length < fuel')
    (h : stringRest fuel acc whole (cs ++ tail) = some (s, rest ++ tail)) :
    stringRest fuel' acc whole cs = some (s, rest) := by
  induction fuel generalizing fuel' acc whole cs with
  | zero => cases h
  | succ fuel ih =>
    obtain ⟨fuel', rfl⟩ := Nat.exists_eq_add_one.2 (Nat.zero_lt_of_lt hcs)
    have hclosed : '"' :: rest <:+ cs := suffix_cut (stringRest_closes h)
    cases cs with
    | nil => exact absurd (List.suffix_nil.1 hclosed) (List.cons_ne_nil _ _)
    | cons d cs =>
      by_cases hd : d = '"'
      · subst hd
        obtain ⟨rfl, hrest⟩ := Prod.mk.inj (Option.some.inj h)
        rw [← List.append_cancel_right hrest]
        rfl
      · rw [List.cons_append, stringRest_cons hd] at h
        obtain ⟨⟨c, mid⟩, hc, h⟩ := Option.bind_eq_some_iff.1 h
        have hmid : '"' :: rest ++ tail <:+ mid := by
          cases c with
          | some c => exact stringRest_closes h
          | none => exact stringRest_closes h
        obtain ⟨front, rfl⟩ := hmid
        rw [← List.append_assoc] at hc h
        have hquote : '"' ∈ front ++ '"' :: rest := by simp
        have hlength : (front ++ '"' :: rest).length < fuel' :=
          Nat.lt_of_le_of_lt (suffix_cut (stringChar_suffix hc)).length_le
            (Nat.lt_of_succ_lt_succ hcs)
        rw [stringRest_cons hd, stringChar_cut hquote hc, Option.bind_some]
        cases c with
        | some c => exact ih hlength h
        | none => exact ih hlength h

theorem cuts_stringBody (n : Nat) : Cuts n stringBody stringBody :=
  ⟨fun h => (List.suffix_cons _ _).trans (stringRest_closes h), fun _ h =>
    stringRest_cut (Nat.lt_succ_self _) h⟩

/-! ## Lists and objects -/

section

variable {α : Type} {close : Char} {n : Nat}

/-- What stands between commas, up to the sign that closes it; `more` is set after a comma. -/
def entries (close : Char) (v : Reader α) : Nat → Bool → List α → Reader (List α)
  | 0, _, _ => fun _ => none
  | fuel + 1, more, acc => andThen blanks fun _ =>
    behind [close] (if more then fun _ => none else give acc.reverse)
      (andThen v fun a => andThen blanks fun _ =>
        behind [','] (entries close v fuel true (a :: acc))
          (behind [close] (give (a :: acc).reverse) fun _ => none))

theorem entries_succ (close : Char) (v : Reader α) (fuel : Nat) (more : Bool) (acc : List α)
    (cs : Chars) : entries close v (fuel + 1) more acc cs =
      behind [close] (fun rest => if more then none else some (acc.reverse, rest))
        (andThen v fun a rest => behind [','] (entries close v fuel true (a :: acc))
          (behind [close] (give (a :: acc).reverse) fun _ => none) (skipBlanks rest))
        (skipBlanks cs) := by
  cases more <;> rfl

/-- Items are entries up to a bracket. -/
theorem items_eq (v : Reader Json) (fuel : Nat) (more : Bool) (acc : List Json) :
    items v fuel more acc = entries ']' v fuel more acc := by
  induction fuel generalizing more acc with
  | zero => rfl
  | succ fuel ih =>
    funext cs
    rw [entries_succ, items]
    generalize skipBlanks cs = cs
    split
    · rw [behind_cons]
    · rename_i hopen
      rw [behind_of_not fun cs' he => hopen cs' he]
      refine congrArg (v cs).bind (funext fun r => ?_)
      obtain ⟨j, mid⟩ := r
      dsimp only
      split
      · rename_i hcs
        rw [hcs, behind_cons, ih]
      · rename_i hcs
        rw [hcs, behind_of_not (by simp), behind_cons]
        rfl
      · rename_i hcomma hclose
        rw [behind_of_not fun cs' he => hcomma cs' he, behind_of_not fun cs' he => hclose cs' he]

/-- Members are entries up to a brace. -/
theorem members_eq (v : Reader Json) (fuel : Nat) (more : Bool)
    (acc : List (Option String × Json)) :
    members v fuel more acc = entries '}' (member v) fuel more acc := by
  induction fuel generalizing more acc with
  | zero => rfl
  | succ fuel ih =>
    funext cs
    rw [entries_succ, members]
    generalize skipBlanks cs = cs
    split
    · rw [behind_cons]
    · rename_i hopen
      rw [behind_of_not fun cs' he => hopen cs' he]
      refine congrArg (member v cs).bind (funext fun r => ?_)
      obtain ⟨m, mid⟩ := r
      dsimp only
      split
      · rename_i hcs
        rw [hcs, behind_cons, ih]
      · rename_i hcs
        rw [hcs, behind_of_not (by simp), behind_cons]
        rfl
      · rename_i hcomma hclose
        rw [behind_of_not fun cs' he => hcomma cs' he, behind_of_not fun cs' he => hclose cs' he]

theorem afterName_eq (v : Reader Json) (k : Option String) : afterName v k =
    andThen blanks fun _ => behind [':'] (andThen blanks fun _ => andThen v fun j => give (k, j))
      fun _ => none := by
  funext cs
  rw [andThen_blanks, afterName]
  split
  · rename_i hcs
    rw [hcs, behind_cons]
    rfl
  · rename_i hcolon
    rw [behind_of_not fun cs' he => hcolon cs' he]

theorem member_eq (v : Reader Json) :
    member v = behind ['"'] (andThen stringBody (afterName v)) fun _ => none := by
  funext cs
  cases cs with
  | nil => rfl
  | cons c cs =>
    by_cases hc : c = '"'
    · subst hc
      rw [behind_cons]
      exact member_quote cs
    · rw [behind_of_not fun cs' he => hc (List.cons.inj he).1]
      unfold member
      split
      · rename_i he
        exact absurd (List.cons.inj he).1 hc
      · rfl

/-- What is behind a member does not matter to it. -/
theorem cuts_member {v v' : Reader Json} (h : Cuts n v v') : Cuts n (member v) (member v') := by
  have hafter (k : Option String) : Cuts n (afterName v k) (afterName v' k) := by
    rw [afterName_eq, afterName_eq]
    exact (Cuts.blanks n).andThen fun _ => .behind_self nofun
      ((Cuts.blanks n).andThen fun _ => h.andThen fun _ => .give n _) (.none n _)
  rw [member_eq, member_eq]
  exact .behind_self nofun ((cuts_stringBody n).andThen hafter) (.none n _)

/-- What is behind the entries of a list does not matter to them. A comma takes a sign, so that the
next entry needs one unit of fuel less. -/
theorem cuts_entries {v v' : Reader α} (h : Cuts n v v') {fuel fuel' : Nat} (hfuel : n < fuel')
    (more : Bool) (acc : List α) :
    Cuts n (entries close v fuel more acc) (entries close v' fuel' more acc) := by
  induction fuel generalizing n fuel' more acc with
  | zero => exact .none n _
  | succ fuel ih =>
    obtain ⟨fuel', rfl⟩ := Nat.exists_eq_add_one.2 (Nat.zero_lt_of_lt hfuel)
    have hclosed : Cuts n (if more then fun _ => none else give acc.reverse)
        (if more then fun _ => none else give acc.reverse) := by
      cases more with
      | false => exact .give n _
      | true => exact .none n _
    refine (Cuts.blanks n).andThen fun _ => .behind_self nofun hclosed
      (h.andThen fun a => (Cuts.blanks n).andThen fun _ => .behind nofun
        (ih h (Nat.lt_succ_self n) true _).leaves (fun m hm => ?_)
        (.behind_self nofun (.give n _) (.none n _)))
    exact ih (h.mono (Nat.le_of_lt hm)) (by omega) true _

/-- What is read ends with the sign that closes it. -/
theorem entries_closes {v : Reader α} (hv : Leaves v) {fuel : Nat} {more : Bool} {acc as : List α}
    {cs rest : Chars} (h : entries close v fuel more acc cs = some (as, rest)) :
    close :: rest <:+ cs := by
  induction fuel generalizing more acc cs with
  | zero => cases h
  | succ fuel ih =>
    refine List.IsSuffix.trans ?_ (skipBlanks_suffix cs)
    rw [entries_succ] at h
    rcases behind_eq_some h with ⟨cs', hcs', h⟩ | h
    · split at h
      · cases h
      · obtain ⟨-, rfl⟩ := Prod.mk.inj (Option.some.inj h)
        rw [hcs']
        exact List.suffix_refl _
    · obtain ⟨⟨a, mid⟩, ha, h⟩ := Option.bind_eq_some_iff.1 h
      refine List.IsSuffix.trans ?_ (hv ha)
      refine List.IsSuffix.trans ?_ (skipBlanks_suffix mid)
      rcases behind_eq_some h with ⟨cs', hcs', h⟩ | h
      · rw [hcs']
        exact (ih h).trans (List.suffix_append _ _)
      · rcases behind_eq_some h with ⟨cs', hcs', h⟩ | h
        · obtain ⟨-, rfl⟩ := Prod.mk.inj (Option.some.inj h)
          rw [hcs']
          exact List.suffix_refl _
        · cases h

/-- A list or an object behind the sign that opens it. -/
def listed (close : Char) (v : Reader α) : Reader (List α) := fun cs =>
  entries close v (cs.length + 1) false [] cs

/-- What is behind the end of a list does not matter to its entries. -/
theorem cuts_listed {v v' : Reader α} (h : Cuts n v v') :
    Cuts n (listed close v) (listed close v') := by
  refine ⟨fun hread => (List.suffix_cons _ _).trans (entries_closes h.leaves hread), ?_⟩
  intro cs rest tail as hcs hread
  exact (cuts_entries (h.mono hcs) (Nat.lt_succ_self _) _ _).cut (Nat.le_refl _) hread

end

/-! ## Values -/

/-- A value in terms of the combinators, told apart by its first sign. -/
theorem value_eq (room limit : Nat) : value (room + 1) limit =
    behind ['"'] (andThen stringBody fun s => give ((s.map string).getD .unreadable))
    (behind ['['] (andThen (listed ']' (value room (limit - 1))) fun js =>
      give (if limit = 0 then .unreadable else .array js))
    (behind ['{'] (andThen (listed '}' (member (value room (limit - 1)))) fun ms =>
      give (if limit = 0 then .unreadable else ofMembers ms))
    (behind ['n', 'u', 'l', 'l'] (give .null)
    (behind ['t', 'r', 'u', 'e'] (give (.bool true))
    (behind ['f', 'a', 'l', 's', 'e'] (give (.bool false)) Number.read))))) := by
  funext cs
  unfold value
  split
  · rw [behind_cons]
    exact Option.map_eq_bind
  · rw [behind_of_not (by simp), behind_cons, items_eq]
    rfl
  · rw [behind_of_not (by simp), behind_of_not (by simp), behind_cons, members_eq]
    rfl
  · rfl
  · rfl
  · rfl
  · rename_i h₁ h₂ h₃ h₄ h₅ h₆
    rw [behind_of_not fun cs' he => h₁ cs' he, behind_of_not fun cs' he => h₂ cs' he,
      behind_of_not fun cs' he => h₃ cs' he, behind_of_not fun cs' he => h₄ cs' he,
      behind_of_not fun cs' he => h₅ cs' he, behind_of_not fun cs' he => h₆ cs' he]

/-- What is behind a value does not matter to it, nor does room that is not used. What opens a list
or an object takes a sign, and so it needs one level of room less. -/
theorem cuts_value (room limit : Nat) {room' n : Nat} (hroom : n < room') :
    Cuts n (value room limit) (value room' limit) := by
  induction room generalizing n room' limit with
  | zero => exact .none n _
  | succ room ih =>
    obtain ⟨room', rfl⟩ := Nat.exists_eq_add_one.2 (Nat.zero_lt_of_lt hroom)
    have hlist {m : Nat} {room' : Nat} (hm : m < room') (f : List Json → Json) :
        Cuts m (andThen (listed ']' (value room (limit - 1))) fun js => give (f js))
          (andThen (listed ']' (value room' (limit - 1))) fun js => give (f js)) :=
      (cuts_listed (ih _ hm)).andThen fun _ => .give m _
    have hobject {m : Nat} {room' : Nat} (hm : m < room') (f : List (Option String × Json) → Json) :
        Cuts m (andThen (listed '}' (member (value room (limit - 1)))) fun ms => give (f ms))
          (andThen (listed '}' (member (value room' (limit - 1)))) fun ms => give (f ms)) :=
      (cuts_listed (cuts_member (ih _ hm))).andThen fun _ => .give m _
    rw [value_eq, value_eq]
    exact .behind_self nofun ((cuts_stringBody n).andThen fun _ => .give n _)
      (.behind nofun (hlist (Nat.lt_succ_self 0) _).leaves (fun m hm => hlist (by omega) _)
      (.behind nofun (hobject (Nat.lt_succ_self 0) _).leaves (fun m hm => hobject (by omega) _)
      (.behind_self nofun (.give n _)
      (.behind_self nofun (.give n _)
      (.behind_self nofun (.give n _) (Number.cuts_read n))))))

/-! ## Where a value starts and ends -/

/-- Where a value that is read starts, what it is for its first sign, and where it ends. -/
inductive Framed : Chars → Json → Chars → Prop where
  | string {cs rest : Chars} (s : Option String) : '"' :: rest <:+ cs →
      Framed ('"' :: cs) ((s.map string).getD .unreadable) rest
  | array {cs rest : Chars} {j : Json} : (j = .unreadable ∨ ∃ js, j = .array js) →
      ']' :: rest <:+ cs → Framed ('[' :: cs) j rest
  | object {cs rest : Chars} {j : Json} : (j = .unreadable ∨ ∃ ms, j = .object ms) →
      '}' :: rest <:+ cs → Framed ('{' :: cs) j rest
  | null {rest : Chars} : Framed (['n', 'u', 'l', 'l'] ++ rest) .null rest
  | yes {rest : Chars} : Framed (['t', 'r', 'u', 'e'] ++ rest) (.bool true) rest
  | no {rest : Chars} : Framed (['f', 'a', 'l', 's', 'e'] ++ rest) (.bool false) rest
  | number {cs rest : Chars} {j : Json} : Number.read cs = some (j, rest) → Framed cs j rest

theorem ofMembers_cases (ms : List (Option String × Json)) :
    ofMembers ms = .unreadable ∨ ∃ members, ofMembers ms = .object members := by
  unfold ofMembers
  split
  · exact .inr ⟨_, rfl⟩
  · exact .inl rfl

/-- A value is read from its first sign to its last one. -/
theorem framed_of_value {room limit : Nat} {cs rest : Chars} {j : Json}
    (h : value room limit cs = some (j, rest)) : Framed cs j rest := by
  cases room with
  | zero => cases h
  | succ room =>
    have hvalue := cuts_value room (limit - 1) (Nat.lt_succ_self 0)
    rw [value_eq] at h
    rcases behind_eq_some h with ⟨cs, rfl, h⟩ | h
    · obtain ⟨⟨s, _⟩, hs, h⟩ := Option.bind_eq_some_iff.1 h
      obtain ⟨rfl, rfl⟩ := Prod.mk.inj (Option.some.inj h)
      exact .string s (stringRest_closes hs)
    rcases behind_eq_some h with ⟨cs, rfl, h⟩ | h
    · obtain ⟨⟨js, _⟩, hjs, h⟩ := Option.bind_eq_some_iff.1 h
      obtain ⟨rfl, rfl⟩ := Prod.mk.inj (Option.some.inj h)
      refine .array ?_ (entries_closes hvalue.leaves hjs)
      split
      · exact .inl rfl
      · exact .inr ⟨js, rfl⟩
    rcases behind_eq_some h with ⟨cs, rfl, h⟩ | h
    · obtain ⟨⟨ms, _⟩, hms, h⟩ := Option.bind_eq_some_iff.1 h
      obtain ⟨rfl, rfl⟩ := Prod.mk.inj (Option.some.inj h)
      refine .object ?_ (entries_closes (cuts_member hvalue).leaves hms)
      split
      · exact .inl rfl
      · exact ofMembers_cases ms
    rcases behind_eq_some h with ⟨cs, rfl, h⟩ | h
    · obtain ⟨rfl, rfl⟩ := Prod.mk.inj (Option.some.inj h)
      exact .null
    rcases behind_eq_some h with ⟨cs, rfl, h⟩ | h
    · obtain ⟨rfl, rfl⟩ := Prod.mk.inj (Option.some.inj h)
      exact .yes
    rcases behind_eq_some h with ⟨cs, rfl, h⟩ | h
    · obtain ⟨rfl, rfl⟩ := Prod.mk.inj (Option.some.inj h)
      exact .no
    · exact .number h

namespace Framed

variable {cs rest : Chars} {j : Json}

theorem starts (h : Framed cs j rest) : ∃ c cs', cs = c :: cs' ∧ Text.isBlank c = false := by
  cases h with
  | number h =>
    obtain ⟨c, cs', rfl, rfl | hdigit⟩ := Number.exists_head h
    · exact ⟨_, _, rfl, by decide⟩
    · exact ⟨_, _, rfl, Text.not_isBlank_of_isAlphanum (by simp [Char.isAlphanum, hdigit])⟩
  | _ => exact ⟨_, _, rfl, by decide⟩

theorem closes (h : Framed cs j rest) : ∃ d, Text.isBlank d = false ∧ d :: rest <:+ cs := by
  cases h with
  | string s h => exact ⟨_, by decide, h.trans (List.suffix_cons _ _)⟩
  | array _ h => exact ⟨_, by decide, h.trans (List.suffix_cons _ _)⟩
  | object _ h => exact ⟨_, by decide, h.trans (List.suffix_cons _ _)⟩
  | null => exact ⟨'l', by decide, ['n', 'u', 'l'], rfl⟩
  | yes => exact ⟨'e', by decide, ['t', 'r', 'u'], rfl⟩
  | no => exact ⟨'e', by decide, ['f', 'a', 'l', 's'], rfl⟩
  | number h =>
    obtain ⟨d, hd, hsuffix⟩ := Number.endsInDigit_of_read h
    exact ⟨d, Text.not_isBlank_of_isAlphanum (by simp [Char.isAlphanum, hd]), hsuffix⟩

/-- Lists and objects are told by their first sign. -/
theorem opens {c : Char} (h : Framed (c :: cs) j rest) (hj : j ≠ .unreadable) :
    (c = '[' ↔ ∃ js, j = .array js) ∧ (c = '{' ↔ ∃ ms, j = .object ms) := by
  cases h with
  | string s =>
    cases s with
    | none => exact absurd rfl hj
    | some s => simp
  | array hcases =>
    obtain ⟨js, rfl⟩ := hcases.resolve_left hj
    simp
  | object hcases =>
    obtain ⟨ms, rfl⟩ := hcases.resolve_left hj
    simp
  | number h =>
    obtain ⟨_, _, he, hc⟩ := Number.exists_head h
    obtain ⟨rfl, -⟩ := List.cons.inj he
    have hopen : c ≠ '[' ∧ c ≠ '{' := by
      rcases hc with rfl | hdigit
      · decide
      · constructor <;> rintro rfl <;> cases hdigit
    rcases Number.read_cases h with rfl | ⟨n, rfl⟩ | ⟨x, rfl⟩
    · exact absurd rfl hj
    · simp [hopen]
    · simp [hopen]
  | _ => simp

/-- Null is four letters. -/
theorem eq_of_null (h : Framed cs .null rest) : cs = ['n', 'u', 'l', 'l'] ++ rest := by
  generalize hj : Json.null = j at h
  cases h with
  | null => rfl
  | string s _ => cases s <;> cases hj
  | array hcases _ => rcases hcases with rfl | ⟨js, rfl⟩ <;> cases hj
  | object hcases _ => rcases hcases with rfl | ⟨ms, rfl⟩ <;> cases hj
  | number h => rcases Number.read_cases h with rfl | ⟨n, rfl⟩ | ⟨x, rfl⟩ <;> cases hj
  | _ => cases hj

end Framed

/-! ## Documents -/

theorem isBlank_of_skipped {c : Char} (h : (c = ' ' || c = '\t' || c = '\n' || c = '\r') = true) :
    Text.isBlank c = true := by
  simp only [Bool.or_eq_true, decide_eq_true_eq] at h
  rcases h with ((rfl | rfl) | rfl) | rfl <;> decide

/-- What is skipped counts as blank. -/
theorem exists_skipped (cs : Chars) :
    ∃ lead, (∀ c ∈ lead, Text.isBlank c = true) ∧ lead ++ skipBlanks cs = cs := by
  refine ⟨_, fun c hc => ?_, List.takeWhile_append_dropWhile⟩
  have := List.mem_takeWhile_imp hc
  exact isBlank_of_skipped this

theorem skipBlanks_of_not_isBlank {c : Char} (h : Text.isBlank c = false) (cs : Chars) :
    skipBlanks (c :: cs) = c :: cs := by
  refine List.dropWhile_cons_of_neg fun hc => ?_
  rw [isBlank_of_skipped hc] at h
  cases h

/-- What the reader takes for a value is read alone, and has no blank at its ends. -/
theorem exists_taken {room limit : Nat} {cs rest : Chars} {j : Json}
    (h : value room limit cs = some (j, rest)) :
    ∃ taken, taken ++ rest = cs ∧ value (taken.length + 1) limit taken = some (j, []) ∧
      taken ≠ [] ∧ Text.Stops Text.isBlank taken ∧ Text.Stops Text.isBlank taken.reverse := by
  have hcuts (n : Nat) := cuts_value room limit (Nat.lt_succ_self n)
  obtain ⟨taken, rfl⟩ := (hcuts 0).leaves h
  have hframed := framed_of_value h
  obtain ⟨c, cs, hc, hfirst⟩ := hframed.starts
  obtain ⟨d, hlast, hd⟩ := hframed.closes
  obtain ⟨front, rfl⟩ : [d] <:+ taken := suffix_cut hd
  refine ⟨front ++ [d], rfl, (hcuts _).cut (Nat.le_refl _) h, by simp, ?_, ?_⟩
  · cases front with
    | nil => exact Text.stops_cons hlast
    | cons e front =>
      obtain ⟨rfl, -⟩ := List.cons.inj hc
      exact Text.stops_cons hfirst
  · rw [List.reverse_append]
    exact Text.stops_cons hlast

/-- What is left of a document without the blanks around it is what the reader takes. -/
theorem exists_trim {s : String} {j : Json} (h : parse s = some j) :
    ∃ cs, Text.trim s = String.ofList cs ∧ value (cs.length + 1) 127 cs = some (j, []) := by
  unfold parse parseWithin at h
  dsimp only at h
  split at h
  · rename_i i rest hvalue
    split at h
    · rename_i hrest
      obtain rfl := Option.some.inj h
      obtain ⟨taken, hcs, halone, hne, hfirst, hlast⟩ := exists_taken hvalue
      obtain ⟨lead, hlead, hall⟩ := exists_skipped s.toList
      obtain ⟨trail, htrail, hend⟩ := exists_skipped rest
      rw [List.isEmpty_iff.1 hrest, List.append_nil] at hend
      subst hend
      exact ⟨taken, by rw [Text.trim, ← hall, ← hcs,
        Text.stripWhere_append hlead htrail hfirst hlast hne], halone⟩
    · cases h
  · cases h

/-- A document is read just so without the blanks around it. -/
theorem parse_trim {s : String} {j : Json} (h : parse s = some j) :
    parse (Text.trim s) = some j := by
  obtain ⟨cs, hs, hvalue⟩ := exists_trim h
  obtain ⟨c, cs, rfl, hc⟩ := (framed_of_value hvalue).starts
  unfold parse parseWithin
  dsimp only
  rw [hs, String.toList_ofList, skipBlanks_of_not_isBlank hc, hvalue]
  rfl

/-- The text of a document without the blanks around it, and where it starts and ends. -/
theorem framed_trim {s : String} {j : Json} (h : parse s = some j) :
    ∃ cs, Text.trim s = String.ofList cs ∧ Framed cs j [] := by
  obtain ⟨cs, hs, hvalue⟩ := exists_trim h
  exact ⟨cs, hs, framed_of_value hvalue⟩

end Archipelago.Json
