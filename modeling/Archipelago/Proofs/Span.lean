import Archipelago.Proofs.Basics
import Archipelago.Span
import Mathlib.Data.List.DropRight

/-!
# Lines and columns

A locator is moved on and back between the characters of a text, and at each place it knows what it
would have counted on the way there from the start. So its answers do not depend on where it has
been before.
-/

namespace Archipelago

namespace Text

@[simp] theorem byteLength_append (cs ds : List Char) :
    byteLength (cs ++ ds) = byteLength cs + byteLength ds := by
  induction cs with
  | nil => simp [byteLength]
  | cons c cs ih => simp [byteLength, ih, Nat.add_assoc]

@[simp] theorem byteLength_reverse (cs : List Char) : byteLength cs.reverse = byteLength cs := by
  induction cs with
  | nil => rfl
  | cons c cs ih => simp [byteLength, ih, Nat.add_comm]

theorem length_le_byteLength (cs : List Char) : cs.length ≤ byteLength cs := by
  induction cs with
  | nil => exact Nat.zero_le _
  | cons c cs ih =>
    rw [List.length_cons, byteLength, Nat.add_comm]
    exact Nat.add_le_add c.utf8Size_pos ih

theorem byteLength_eq (cs : List Char) : byteLength cs = (String.ofList cs).utf8ByteSize := by
  induction cs with
  | nil => rfl
  | cons c cs ih =>
    rw [String.ofList_cons, String.utf8ByteSize_append, String.utf8ByteSize_singleton, ← ih,
      byteLength]

theorem byteLength_toList (s : String) : byteLength s.toList = s.utf8ByteSize := by
  rw [byteLength_eq, String.ofList_toList]

/-! ## Places between characters -/

/-- The offset is between two characters of the text, at one of its ends, or past it. -/
def IsBoundary (src : List Char) (offset : Nat) : Prop :=
  (∃ pre, pre <+: src ∧ byteLength pre = offset) ∨ byteLength src < offset

/-- A cut of the text is at the offset, or at the end if the offset is past it. -/
def IsCut (pre post : List Char) (offset : Nat) : Prop :=
  byteLength pre = offset ∨ post = [] ∧ byteLength pre < offset

variable {src pre post : List Char} {offset : Nat}

theorem IsBoundary.exists_cut (h : IsBoundary src offset) :
    ∃ pre post, src = pre ++ post ∧ IsCut pre post offset := by
  rcases h with ⟨pre, ⟨post, rfl⟩, h⟩ | h
  · exact ⟨pre, post, rfl, .inl h⟩
  · exact ⟨src, [], (List.append_nil src).symm, .inr ⟨rfl, h⟩⟩

theorem IsCut.eq_min (h : IsCut pre post offset) :
    byteLength pre = min offset (byteLength (pre ++ post)) := by
  rw [byteLength_append]
  rcases h with rfl | ⟨rfl, h⟩
  · omega
  · rw [byteLength]
    omega

/-- Of two cuts of a text one comes first. -/
theorem exists_between {pre' post' : List Char} (h : pre ++ post = pre' ++ post')
    (hle : byteLength pre ≤ byteLength pre') : ∃ mid, pre' = pre ++ mid ∧ post = mid ++ post' := by
  rcases List.append_eq_append_iff.1 h with ⟨mid, rfl, rfl⟩ | ⟨mid, rfl, rfl⟩
  · exact ⟨mid, rfl, rfl⟩
  · have hlength := length_le_byteLength mid
    rw [byteLength_append] at hle
    obtain rfl : mid = [] := List.length_eq_zero_iff.1 (by omega)
    exact ⟨[], by simp, rfl⟩

end Text

open Text (IsBoundary IsCut byteLength)

namespace Locator

variable {before behind back post : List Char} {target : Nat}

/-- The locator at a place of a text, with what is counted on a pass over all that is before it. -/
def counted (before behind : List Char) : Locator where
  before
  behind
  offset := byteLength before
  line := before.count '\n' + 1
  column := (before.takeWhile (· ≠ '\n')).length + 1

/-! ## Moves -/

/-- To go on counts each character. -/
theorem forward_counted {mid : List Char} (h : IsCut (before.reverse ++ mid) post target) :
    forward before (byteLength before) (before.count '\n' + 1)
      ((before.takeWhile (· ≠ '\n')).length + 1) target (mid ++ post) =
      counted (mid.reverse ++ before) post := by
  induction mid generalizing before with
  | nil =>
    cases post with
    | nil => rfl
    | cons c post =>
      have hend : ¬byteLength before < target := by
        rcases h with h | ⟨h, -⟩
        · rw [List.append_nil, Text.byteLength_reverse] at h
          exact Nat.not_lt.2 h.ge
        · cases h
      rw [List.nil_append, forward, if_neg hend]
      rfl
  | cons c mid ih =>
    have hnext : byteLength before < target := by
      have hc := c.utf8Size_pos
      rcases h with h | ⟨-, h⟩
      all_goals
        simp only [Text.byteLength_append, Text.byteLength_reverse, byteLength] at h
        omega
    have hcut : IsCut ((c :: before).reverse ++ mid) post target := by
      rwa [List.reverse_cons, List.append_assoc]
    have hstep := ih hcut
    rw [byteLength, Nat.add_comm] at hstep
    rw [List.cons_append, forward, if_pos hnext, List.reverse_cons, List.append_assoc]
    split
    · rename_i hbreak
      subst hbreak
      rwa [List.count_cons_self, List.takeWhile_cons_of_neg (by decide)] at hstep
    · rename_i hbreak
      rwa [List.count_cons_of_ne hbreak, List.takeWhile_cons_of_pos (by simpa using hbreak)]
        at hstep

/-- To fill some bytes takes the first characters. -/
theorem filling_append_drop (bytes : Nat) (cs : List Char) :
    filling bytes cs ++ cs.drop (filling bytes cs).length = cs := by
  fun_induction filling bytes cs with
  | case1 => rfl
  | case2 => rfl
  | case3 bytes c cs _ ih => exact congrArg (c :: ·) ih

theorem filling_append (cs ds : List Char) : filling (byteLength cs) (cs ++ ds) = cs := by
  induction cs with
  | nil => exact filling.eq_1 ds
  | cons c cs ih =>
    have hc := c.utf8Size_pos
    rw [byteLength, List.cons_append, filling]
    · rw [Nat.add_sub_cancel_left, ih]
    · omega

/-- To go back takes off what has been counted, or counts anew. -/
theorem backward_counted (back before behind : List Char) :
    (counted (back ++ before) behind).backward (byteLength before) =
      counted before (back.reverse ++ behind) := by
  have hback :
      filling (byteLength (back ++ before) - byteLength before) (back ++ before) = back := by
    rw [Text.byteLength_append, Nat.add_sub_cancel]
    exact filling_append back before
  unfold backward counted
  dsimp only
  rw [hback, List.drop_left, Text.byteLength_append, Nat.add_sub_cancel_left, List.count_append]
  congr 1
  · omega
  · split
    · rename_i hline
      have hsame : ∀ c ∈ back, decide (c ≠ '\n') = true := fun c hc =>
        decide_eq_true fun he => List.count_eq_zero.1 hline (he ▸ hc)
      rw [List.takeWhile_append_of_pos hsame, List.length_append]
      omega
    · rfl

/-- Wherever a locator comes from, it has counted what is before it. -/
theorem seek_counted {pre : List Char} (hsame : before.reverse ++ behind = pre ++ post)
    (h : IsCut pre post target) :
    (counted before behind).seek target = counted pre.reverse post := by
  have hbytes := congrArg byteLength hsame
  rw [Text.byteLength_append, Text.byteLength_append, Text.byteLength_reverse] at hbytes
  unfold seek
  split
  · rename_i hle
    have hpre : byteLength before.reverse ≤ byteLength pre := by
      rw [Text.byteLength_reverse]
      rcases h with rfl | ⟨rfl, -⟩
      · exact hle
      · rw [byteLength] at hbytes
        omega
    obtain ⟨mid, rfl, rfl⟩ := Text.exists_between hsame hpre
    rw [List.reverse_append, List.reverse_reverse]
    exact forward_counted h
  · rename_i hgt
    have htarget : byteLength pre = target := by
      refine h.resolve_right fun ⟨hend, hlt⟩ => hgt ?_
      rw [hend, byteLength] at hbytes
      show byteLength before ≤ target
      omega
    have hpre : byteLength pre ≤ byteLength before.reverse := by
      rw [Text.byteLength_reverse, htarget]
      exact (Nat.lt_of_not_le hgt).le
    obtain ⟨mid, hmid, rfl⟩ := Text.exists_between hsame.symm hpre
    obtain rfl : before = mid.reverse ++ pre.reverse := by
      rw [← List.reverse_append, ← hmid, List.reverse_reverse]
    have hback := backward_counted mid.reverse pre.reverse behind
    rwa [Text.byteLength_reverse, htarget, List.reverse_reverse] at hback

end Locator

/-! ## Spans -/

namespace Span

/-- The span of a construct behind the characters `pre`. -/
def behind (pre : List Char) (stop : Nat) : Span where
  start := byteLength pre
  stop := max stop (byteLength pre)
  line := pre.count '\n' + 1
  column := (pre.rtakeWhile (· ≠ '\n')).length + 1

theorem before_append (pre post seen : List Char) :
    before (byteLength pre) seen (pre ++ post) = pre.reverse ++ seen := by
  induction pre generalizing seen with
  | nil =>
    cases post with
    | nil => rfl
    | cons c post => exact if_pos c.utf8Size_pos
  | cons c pre ih =>
    rw [byteLength, List.cons_append, before, if_neg (by omega), Nat.add_sub_cancel_left, ih,
      List.reverse_cons, List.append_assoc]
    rfl

theorem locate_append {pre post : List Char} {start : Nat} (h : IsCut pre post start) (stop : Nat) :
    locate (pre ++ post) start stop = behind pre stop := by
  unfold locate
  dsimp only
  rw [← h.eq_min, before_append, List.append_nil, List.count_reverse]
  simp only [behind, List.rtakeWhile, List.length_reverse]

end Span

namespace Locator

theorem span_counted {before rest pre post : List Char} {start : Nat}
    (hsame : before.reverse ++ rest = pre ++ post) (h : IsCut pre post start) (stop : Nat) :
    (counted before rest).span start stop = (.behind pre stop, counted pre.reverse post) := by
  unfold span
  dsimp only
  rw [seek_counted hsame h]
  simp only [counted, Span.behind, Text.byteLength_reverse, List.count_reverse, List.rtakeWhile,
    List.length_reverse]

/-- The answers of one locator, which is asked for one span after the other. -/
def spans (l : Locator) : List (Nat × Nat) → List Span
  | [] => []
  | (start, stop) :: calls => (l.span start stop).1 :: (l.span start stop).2.spans calls

theorem spans_counted {src before rest : List Char} (hsame : before.reverse ++ rest = src)
    {calls : List (Nat × Nat)} (h : ∀ x ∈ calls, IsBoundary src x.1) :
    (counted before rest).spans calls = calls.map fun x => .locate src x.1 x.2 := by
  induction calls generalizing before rest with
  | nil => rfl
  | cons x calls ih =>
    obtain ⟨hx, hcalls⟩ := List.forall_mem_cons.1 h
    obtain ⟨pre, post, rfl, hcut⟩ := hx.exists_cut
    have hnext := @ih pre.reverse post (by rw [List.reverse_reverse]) hcalls
    rw [spans, span_counted hsame hcut, List.map_cons, Span.locate_append hcut, hnext]

/-- Whatever spans a locator has been asked for, forwards and backwards, each of its answers is the
one of a look at the text from the start: the line is one more than the line breaks before the span,
and the column is one more than the characters since the last of them. -/
theorem spans_eq_locate {src : List Char} {calls : List (Nat × Nat)}
    (h : ∀ x ∈ calls, IsBoundary src x.1) :
    (ofChars src).spans calls = calls.map (fun x => .locate src x.1 x.2) ∧
      ∀ x ∈ calls, ∃ pre, pre <+: src ∧ byteLength pre = min x.1 (byteLength src) ∧
        Span.locate src x.1 x.2 =
          { start := byteLength pre, stop := max x.2 (byteLength pre), line := pre.count '\n' + 1
            column := (pre.rtakeWhile (· ≠ '\n')).length + 1 } := by
  refine ⟨@spans_counted src [] src rfl calls h, fun x hx => ?_⟩
  obtain ⟨pre, post, rfl, hcut⟩ := (h x hx).exists_cut
  exact ⟨pre, List.prefix_append pre post, hcut.eq_min, Span.locate_append hcut x.2⟩

/-- Three lines, the second with a character of two bytes. -/
def verse : List Char := "ab\ncdé\nf".toList

/-- From the last line back to the second one, on in it, back to the first one, past the end, and
back to the start of the second line. -/
theorem spans_verse :
    (∀ x ∈ [(8, 9), (4, 5), (7, 7), (1, 2), (40, 3), (3, 9)], IsBoundary verse x.1) ∧
      (ofChars verse).spans [(8, 9), (4, 5), (7, 7), (1, 2), (40, 3), (3, 9)] =
        [⟨8, 9, 3, 1⟩, ⟨4, 5, 2, 2⟩, ⟨7, 7, 2, 4⟩, ⟨1, 2, 1, 2⟩, ⟨9, 9, 3, 2⟩, ⟨3, 9, 2, 1⟩] := by
  have hplace : ∀ n, IsBoundary verse (byteLength (verse.take n)) := fun n =>
    .inl ⟨_, List.take_prefix n verse, rfl⟩
  have h : ∀ x ∈ [(8, 9), (4, 5), (7, 7), (1, 2), (40, 3), (3, 9)], IsBoundary verse x.1 := by
    simp only [List.forall_mem_cons]
    exact ⟨hplace 7, hplace 4, hplace 6, hplace 1, .inr (by decide), hplace 3,
      List.forall_mem_nil _⟩
  exact ⟨h, (spans_eq_locate h).1.trans (by decide)⟩

end Locator

end Archipelago
