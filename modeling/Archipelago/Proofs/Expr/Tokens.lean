import Archipelago.Expr.Token
import Archipelago.Proofs.Basics
import Archipelago.Proofs.Text

/-!
# Tokens do not depend on their place

A token is told by the characters from its first one on. So a text has the same tokens behind any
other text, and the tokens of a path below the variables are those of the path itself behind two
more.
-/

namespace Archipelago

namespace Expr.Lexer

open Text (isBlank isLetter isLetterOrDigit)

/-! ## One token -/

/-- Where a token stands counts for errors only. -/
theorem symbol_shift {pos : Nat} (pos' : Nat) {c : Char} {cs : List Char} {l : Lexeme}
    (h : symbol pos c cs = .ok l) : symbol pos' c cs = .ok l := by
  unfold symbol at h ⊢
  split at h
  all_goals first
    | exact h
    | split at h
      · exact h
      · first
        | exact h
        | cases h
    | cases h

theorem next_shift {pos : Nat} (pos' : Nat) {c : Char} {cs : List Char} {l : Lexeme}
    (h : next pos c cs = .ok l) : next pos' c cs = .ok l := by
  unfold next at h ⊢
  split at h
  · rename_i hdigit
    rw [if_pos hdigit]
    unfold number at h ⊢
    dsimp only at h ⊢
    split at h
    · exact h
    · cases h
  · rename_i hdigit
    rw [if_neg hdigit]
    split at h
    · rename_i hquote
      rw [if_pos hquote]
      split at h
      · exact h
      · cases h
    · rename_i hquote
      rw [if_neg hquote]
      split at h
      · rename_i hroot
        rw [if_pos hroot]
        exact h
      · rename_i hroot
        rw [if_neg hroot]
        split at h
        · rename_i hname
          rw [if_pos hname]
          exact h
        · rename_i hname
          rw [if_neg hname]
          exact symbol_shift pos' h

theorem stringRest_length {quote : Char} {acc cs : List Char} {width : Nat}
    {r : List Char × Nat × List Char} (h : stringRest quote acc width cs = some r) :
    r.2.2.length ≤ cs.length := by
  fun_induction stringRest quote acc width cs with
  | case1 => cases h
  | case2 => cases h
  | case3 acc width c cs kept ih =>
    have := ih h
    simp only [List.length_cons]
    omega
  | case4 acc width cs _ =>
    obtain rfl := Option.some.inj h
    simp
  | case5 acc width c cs _ _ _ ih =>
    have := ih h
    simp only [List.length_cons]
    omega

theorem symbol_length {pos : Nat} {c : Char} {cs : List Char} {l : Lexeme}
    (h : symbol pos c cs = .ok l) : l.rest.length ≤ cs.length := by
  have hdrop : ∀ t width cs, (dropEquals t width cs).rest.length ≤ cs.length := by
    intro t width cs
    unfold dropEquals
    split <;> simp
  unfold symbol at h
  split at h
  all_goals first
    | (obtain rfl := Except.ok.inj h; simp)
    | (split at h
       all_goals first
         | (obtain rfl := Except.ok.inj h
            first
              | exact (hdrop _ _ _).trans (by simp)
              | simp)
         | cases h)
    | cases h

theorem number_length {pos : Nat} {c : Char} {cs : List Char} {l : Lexeme}
    (hc : c.isDigit = true) (h : number pos (c :: cs) = .ok l) : l.rest.length ≤ cs.length := by
  have hwhole : ((c :: cs).dropWhile Char.isDigit).length ≤ cs.length := by
    rw [List.dropWhile_cons_of_pos hc]
    exact List.length_dropWhile_le _ _
  unfold number at h
  dsimp only at h
  split at h
  · obtain rfl := Except.ok.inj h
    dsimp only
    split
    · rename_i d r hrest
      split
      · have := List.length_dropWhile_le Char.isDigit (d :: r)
        rw [hrest] at hwhole
        simp only [List.length_cons] at hwhole this ⊢
        omega
      · exact hwhole
    · exact hwhole
  · cases h

/-- A token takes the character that it starts with. -/
theorem next_length {pos : Nat} {c : Char} {cs : List Char} {l : Lexeme}
    (h : next pos c cs = .ok l) : l.rest.length ≤ cs.length := by
  unfold next at h
  split at h
  · rename_i hdigit
    exact number_length hdigit h
  · split at h
    · split at h
      · rename_i s width rest hs
        obtain rfl := Except.ok.inj h
        exact stringRest_length hs
      · cases h
    · split at h
      · dsimp only at h
        split at h
        · obtain rfl := Except.ok.inj h
          exact List.length_dropWhile_le _ _
        · split at h
          · obtain rfl := Except.ok.inj h
            exact List.length_dropWhile_le _ _
          · cases h
      · split at h
        · rename_i hname
          obtain rfl := Except.ok.inj h
          have hc : isNameChar c = true := by
            unfold isNameChar
            simp only [Bool.or_eq_true, decide_eq_true_eq] at hname ⊢
            exact hname.imp_left Text.isLetterOrDigit_of_isLetter
          dsimp only
          rw [List.dropWhile_cons_of_pos hc]
          exact List.length_dropWhile_le _ _
        · exact symbol_length h

/-! ## All tokens -/

/-- A text has the same tokens behind any other text, as long as there is fuel for all of it. -/
theorem run_shift {fuel pos : Nat} {cs : List Char} {toks : List (Nat × Token)}
    (h : run fuel pos cs = .ok toks) (hfuel : cs.length ≤ fuel) (fuel' pos' : Nat)
    (hfuel' : cs.length ≤ fuel') :
    ∃ toks', run fuel' pos' cs = .ok toks' ∧ toks.map (·.2) = toks'.map (·.2) := by
  induction fuel generalizing pos cs toks fuel' pos' with
  | zero =>
    obtain rfl := List.length_eq_zero_iff.1 (Nat.le_zero.1 hfuel)
    obtain rfl := Except.ok.inj h
    exact ⟨[], by cases fuel' <;> rfl, rfl⟩
  | succ fuel ih =>
    cases cs with
    | nil =>
      obtain rfl := Except.ok.inj h
      exact ⟨[], by cases fuel' <;> rfl, rfl⟩
    | cons c cs =>
      simp only [List.length_cons] at hfuel hfuel'
      obtain ⟨fuel', rfl⟩ : ∃ k, fuel' = k + 1 := ⟨fuel' - 1, by omega⟩
      unfold run at h ⊢
      split at h
      · rename_i hblank
        rw [if_pos hblank]
        exact ih h (by omega) _ _ (by omega)
      · rename_i hblank
        rw [if_neg hblank]
        obtain ⟨l, hl, h⟩ := bind_eq_ok.1 h
        obtain ⟨more, hmore, h⟩ := bind_eq_ok.1 h
        obtain rfl := Except.ok.inj h
        have hlen := next_length hl
        obtain ⟨more', hmore', hsame⟩ := ih hmore (by omega) fuel' (pos' + l.width) (by omega)
        refine ⟨(pos', l.token) :: more',
          bind_eq_ok.2 ⟨l, next_shift pos' hl, bind_eq_ok.2 ⟨more', hmore', rfl⟩⟩, ?_⟩
        simp [hsame]

end Expr.Lexer

/-! ## Names -/

namespace Text

theorem toNat_of_isDigit {c : Char} (h : c.isDigit = true) : 48 ≤ c.toNat ∧ c.toNat ≤ 57 := by
  simpa [Char.isDigit, UInt32.le_iff_toNat_le] using h

theorem not_isDigit_of_isLetter {c : Char} (h : isLetter c = true) : ¬c.isDigit = true := by
  intro hd
  have hrange := toNat_of_isDigit hd
  unfold isLetter at h
  rw [if_pos (by omega)] at h
  delta Char.isAlpha Char.isUpper Char.isLower at h
  simp [UInt32.le_iff_toNat_le] at h
  omega

end Text

namespace Expr

open Text (isBlank isLetter)
open Lexer (isNameChar next run)

/-- A character that a name can start with. -/
def IsNameStart (c : Char) : Prop := isLetter c = true ∨ c = '_'

theorem IsNameStart.isNameChar {c : Char} (h : IsNameStart c) : isNameChar c = true := by
  unfold Lexer.isNameChar
  simp only [Bool.or_eq_true, decide_eq_true_eq]
  exact h.imp_left Text.isLetterOrDigit_of_isLetter

/-- A name at the front of a text is its first token. -/
theorem next_name (pos : Nat) {c : Char} {cs : List Char} (h : IsNameStart c) :
    next pos c cs = .ok
      ⟨.ident (String.ofList ((c :: cs).takeWhile isNameChar)),
        Text.byteLength ((c :: cs).takeWhile isNameChar), (c :: cs).dropWhile isNameChar⟩ := by
  have hdigit : ¬c.isDigit = true := by
    rcases h with h | rfl
    · exact Text.not_isDigit_of_isLetter h
    · decide
  have hquote : ¬(c = '"' || c = '\'') = true := by
    rcases h with h | rfl
    · simp only [Bool.or_eq_true, decide_eq_true_eq]
      rintro (rfl | rfl)
      · revert h; decide
      · revert h; decide
    · decide
  have hroot : ¬c = '$' := by
    rintro rfl
    rcases h with h | h
    · revert h; decide
    · revert h; decide
  have hname : (isLetter c || c = '_') = true := by
    simp only [Bool.or_eq_true, decide_eq_true_eq]
    exact h
  unfold next
  rw [if_neg hdigit, if_neg hquote, if_neg hroot, if_pos hname]

theorem next_vars (pos : Nat) (cs : List Char) :
    next pos '$' ('v' :: 'a' :: 'r' :: 's' :: '.' :: cs) = .ok ⟨.root .vars, 5, '.' :: cs⟩ := by
  have hv : isNameChar 'v' = true := by decide
  have ha : isNameChar 'a' = true := by decide
  have hr : isNameChar 'r' = true := by decide
  have hs : isNameChar 's' = true := by decide
  have hdot : isNameChar '.' = false := by decide
  unfold next
  rw [if_neg (by decide), if_neg (by decide), if_pos rfl]
  simp [hv, ha, hr, hs, hdot]

theorem tokenize_vars_eq (cs : List Char) :
    tokenize ("$vars.".toList ++ cs) =
      run (cs.length + 4) 6 cs >>= fun toks => .ok ((0, .root .vars) :: (5, .dot) :: toks) := by
  show run (cs.length + 6) 0 ('$' :: 'v' :: 'a' :: 'r' :: 's' :: '.' :: cs) = _
  rw [run, if_neg (by decide), next_vars]
  show (run (cs.length + 5) 5 ('.' :: cs) >>= fun toks => .ok ((0, .root .vars) :: toks)) = _
  rw [run, if_neg (by decide)]
  show ((run (cs.length + 4) 6 cs >>= fun toks => .ok ((5, .dot) :: toks)) >>= _) = _
  rw [bind_assoc]
  rfl

/-- A text below the variables has its own tokens behind two others. -/
theorem tokenize_vars {cs : List Char} {toks : List (Nat × Token)} (h : tokenize cs = .ok toks) :
    ∃ toks', tokenize ("$vars.".toList ++ cs) =
        .ok ((0, .root .vars) :: (5, .dot) :: toks') ∧ toks.map (·.2) = toks'.map (·.2) := by
  obtain ⟨toks', hrun, hsame⟩ := Lexer.run_shift h (Nat.le_refl _) (cs.length + 4) 6 (by omega)
  exact ⟨toks', (tokenize_vars_eq cs).trans (bind_eq_ok.2 ⟨toks', hrun, rfl⟩), hsame⟩

theorem exists_tokenize_of_vars {cs : List Char} {toks : List (Nat × Token)}
    (h : tokenize ("$vars.".toList ++ cs) = .ok toks) : ∃ toks', tokenize cs = .ok toks' := by
  rw [tokenize_vars_eq] at h
  obtain ⟨more, hrun, -⟩ := bind_eq_ok.1 h
  obtain ⟨toks', hrun', -⟩ := Lexer.run_shift hrun (by omega) cs.length 0 (Nat.le_refl _)
  exact ⟨toks', hrun'⟩

/-- The tokens of a text that starts with a name. -/
theorem tokenize_name {c : Char} {cs : List Char} {toks : List (Nat × Token)}
    (hblank : isBlank c = false) (hc : IsNameStart c) (h : tokenize (c :: cs) = .ok toks) :
    ∃ rest, toks = (0, .ident (String.ofList ((c :: cs).takeWhile isNameChar))) :: rest := by
  change run (cs.length + 1) 0 (c :: cs) = _ at h
  unfold run at h
  rw [if_neg (by simpa using hblank)] at h
  obtain ⟨l, hl, h⟩ := bind_eq_ok.1 h
  obtain ⟨rest, -, h⟩ := bind_eq_ok.1 h
  obtain rfl := Except.ok.inj ((next_name 0 hc).symm.trans hl)
  exact ⟨rest, (Except.ok.inj h).symm⟩

theorem not_isBlank_of_isNameChar {c : Char} (h : isNameChar c = true) : isBlank c = false := by
  rcases (Bool.or_eq_true _ _).mp h with h | h
  · exact Text.not_isBlank_of_isLetterOrDigit h
  · rw [of_decide_eq_true h]
    decide

/-- A name alone is one token. -/
theorem tokenize_of_name {c : Char} {cs : List Char} (hc : IsNameStart c)
    (hall : ∀ x ∈ c :: cs, isNameChar x = true) :
    tokenize (c :: cs) = .ok [(0, .ident (String.ofList (c :: cs)))] := by
  have hname : next 0 c cs = _ := next_name 0 hc
  rw [List.takeWhile_eq_self_iff.2 hall, List.dropWhile_eq_nil_iff.2 hall] at hname
  show run (cs.length + 1) 0 (c :: cs) = _
  unfold run
  rw [if_neg (by simp [not_isBlank_of_isNameChar hc.isNameChar])]
  refine bind_eq_ok.2 ⟨_, hname, bind_eq_ok.2 ⟨[], ?_, rfl⟩⟩
  unfold run
  rfl

end Expr

end Archipelago
