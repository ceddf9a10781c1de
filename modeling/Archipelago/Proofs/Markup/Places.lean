import Archipelago.Markup.Parser
import Archipelago.Proofs.Basics
import Archipelago.Proofs.Span

/-!
# Places in markup

Reading moves through the text, so no place that it comes to lies outside of it, and each node that
it finds takes at least one character. The nodes are thus no more than the characters, and their
places can be counted in 64 bits if the text is of a size that memory has.
-/

namespace Archipelago

/-- A place in a text of so many bytes, in bytes and in lines. -/
structure Span.Within (size : Nat) (s : Span) : Prop where
  start : s.start ≤ size
  stop : s.stop ≤ size
  line : s.line ≤ size + 1
  column : s.column ≤ size + 1

/-! ## The locator -/

namespace Locator

/-- What is known of a locator in a text of so many bytes. -/
structure Within (size : Nat) (l : Locator) : Prop where
  bytes : Text.byteLength l.before + Text.byteLength l.behind ≤ size
  offset : l.offset = Text.byteLength l.before
  line : l.line ≤ l.before.count '\n' + 1
  column : l.column ≤ l.before.length + 1

variable {size : Nat}

/-- A locator starts within its text. -/
theorem within_ofChars (cs : List Char) : (ofChars cs).Within (Text.byteLength cs) where
  bytes := Nat.le_of_eq (Nat.zero_add _)
  offset := rfl
  line := Nat.le_refl _
  column := Nat.le_refl _

/-- A locator that goes on stays within its text. -/
theorem within_forward (target : Nat) {before behind : List Char} {offset line column : Nat}
    (h : Within size ⟨before, behind, offset, line, column⟩) :
    (forward before offset line column target behind).Within size := by
  induction behind generalizing before offset line column with
  | nil => exact h
  | cons c cs ih =>
    obtain ⟨hbytes, hoffset, hline, hcolumn⟩ := h
    simp only [Text.byteLength] at hbytes hoffset hline hcolumn
    have hbytes' : Text.byteLength (c :: before) + Text.byteLength cs ≤ size := by
      rw [Text.byteLength]
      omega
    have hoffset' : offset + c.utf8Size = Text.byteLength (c :: before) := by
      rw [Text.byteLength, hoffset, Nat.add_comm]
    unfold forward
    split
    · split
      · rename_i hbreak
        refine ih ⟨hbytes', hoffset', ?_, Nat.le_add_left _ _⟩
        simpa [hbreak] using hline
      · refine ih ⟨hbytes', hoffset', ?_, Nat.succ_le_succ hcolumn⟩
        exact Nat.le_trans hline (Nat.succ_le_succ (List.count_le_count_cons))
    · exact ⟨hbytes, hoffset, hline, hcolumn⟩

theorem within_backward {l : Locator} (h : l.Within size) (target : Nat) :
    (l.backward target).Within size := by
  have hsplit := filling_append_drop (l.offset - target) l.before
  obtain ⟨hbytes, hoffset, hline, hcolumn⟩ := h
  unfold backward
  dsimp only
  generalize filling (l.offset - target) l.before = back at hsplit ⊢
  generalize l.before.drop back.length = before at hsplit ⊢
  rw [← hsplit, Text.byteLength_append] at hbytes hoffset
  rw [← hsplit, List.count_append] at hline
  rw [← hsplit, List.length_append] at hcolumn
  refine ⟨?_, ?_, ?_, ?_⟩
  all_goals dsimp only
  · rw [Text.byteLength_append, Text.byteLength_reverse]
    omega
  · omega
  · omega
  · split
    · omega
    · exact Nat.succ_le_succ (List.takeWhile_sublist _).length_le

theorem within_seek {l : Locator} (h : l.Within size) (target : Nat) :
    (l.seek target).Within size := by
  unfold seek
  split
  · exact within_forward target h
  · exact within_backward h target

/-- A span between two places of a text is within it. -/
theorem within_span {l : Locator} (h : l.Within size) (start : Nat) {stop : Nat}
    (hstop : stop ≤ size) :
    (l.span start stop).1.Within size ∧ (l.span start stop).2.Within size := by
  have hseek := within_seek h start
  have hlength := Text.length_le_byteLength (l.seek start).before
  have hcount := (l.seek start).before.count_le_length (a := '\n')
  refine ⟨?_, hseek⟩
  obtain ⟨hbytes, hoffset, hline, hcolumn⟩ := hseek
  refine ⟨?_, ?_, ?_, ?_⟩
  all_goals simp only [span]; omega

end Locator

namespace Markup

variable {size : Nat}

/-! ## The cursor -/

namespace Cursor

/-- What is known of a cursor in a text of so many bytes. -/
structure Within (size : Nat) (c : Cursor) : Prop where
  bytes : c.pos + Text.byteLength c.rest ≤ size
  locator : c.locator.Within size

variable {c : Cursor}

theorem within_ofChars (cs : List Char) : (ofChars cs).Within (Text.byteLength cs) :=
  ⟨Nat.le_of_eq (Nat.zero_add _), Locator.within_ofChars cs⟩

/-- A cursor that goes on stays within its text. -/
theorem Within.behind (h : c.Within size) {taken rest : List Char}
    (hsplit : taken ++ rest = c.rest) :
    (c.behind taken rest).Within size := by
  refine ⟨?_, h.locator⟩
  have hbytes := h.bytes
  rw [← hsplit, Text.byteLength_append] at hbytes
  show c.pos + Text.byteLength taken + Text.byteLength rest ≤ size
  omega

theorem Within.drop (h : c.Within size) (n : Nat) : (c.drop n).Within size :=
  h.behind (List.take_append_drop n c.rest)

theorem Within.takeWhile (h : c.Within size) (p : Char → Bool) : (c.takeWhile p).2.Within size :=
  h.behind List.takeWhile_append_dropWhile

theorem Within.skipBlanks (h : c.Within size) : c.skipBlanks.Within size := h.takeWhile _

theorem Within.name (h : c.Within size) : (Markup.name c).2.Within size := h.takeWhile _

theorem Within.span (h : c.Within size) (start : Nat) :
    (c.span start).1.Within size ∧ (c.span start).2.Within size := by
  have hspan := Locator.within_span h.locator start (Nat.le_trans (Nat.le_add_right _ _) h.bytes)
  exact ⟨hspan.1, h.bytes, hspan.2⟩

end Cursor

/-! ## Tags -/

theorem within_attrValue {start : Nat} {c c' : Cursor} {value : String} (hc : c.Within size)
    (h : attrValue start c = .ok (value, c')) : c'.Within size := by
  unfold attrValue at h
  split at h
  · split at h
    · dsimp only at h
      split at h
      · cases h
      · cases h
        exact ((hc.drop 1).takeWhile _).drop 1
    · dsimp only at h
      split at h
      · cases h
      · cases h
        exact hc.takeWhile _
  · cases h

theorem within_readAttr {tag : String} {c c' : Cursor} {a : Attr} (hc : c.Within size)
    (h : readAttr tag c = .ok (a, c')) : c'.Within size := by
  unfold readAttr at h
  dsimp only at h
  split at h
  · cases h
  · have hblanks := hc.name.skipBlanks
    split at h
    · obtain ⟨⟨value, c''⟩, hvalue, h⟩ := bind_eq_ok.1 h
      cases h
      exact ((within_attrValue (hblanks.drop 1).skipBlanks hvalue).span _).2
    · cases h
      exact (hblanks.span _).2

theorem within_attributes {start : Nat} {tag : String} {fuel : Nat} {acc : List Attr}
    {c c' : Cursor} {found : List Attr × Bool} (hc : c.Within size)
    (h : attributes start tag fuel acc c = .ok (found, c')) : c'.Within size := by
  induction fuel generalizing acc c with
  | zero => cases h
  | succ fuel ih =>
    unfold attributes at h
    dsimp only at h
    split at h
    · cases h
    · cases h
      exact hc.skipBlanks.drop 1
    · cases h
      exact hc.skipBlanks.drop 2
    · cases h
    · obtain ⟨⟨a, c''⟩, hattr, h⟩ := bind_eq_ok.1 h
      exact ih (within_readAttr hc.skipBlanks hattr) h

/-- A tag stands within its text. -/
theorem within_openTag {fuel : Nat} {c c' : Cursor} {tag : OpenTag} {closed : Bool}
    (hc : c.Within size) (h : openTag fuel c = .ok ((tag, closed), c')) :
    tag.span.Within size ∧ c'.Within size := by
  unfold openTag at h
  dsimp only at h
  obtain ⟨⟨⟨attrs, closed'⟩, c''⟩, hattrs, h⟩ := bind_eq_ok.1 h
  cases h
  exact (within_attributes (hc.drop 1).name hattrs).span _

theorem within_closingTag {c c' : Cursor} {tag : String} (hc : c.Within size)
    (h : closingTag c = .ok (tag, c')) : c'.Within size := by
  unfold closingTag at h
  dsimp only at h
  split at h
  · cases h
    exact (hc.drop 2).name.skipBlanks.drop 1
  · cases h

/-- A comment and what is behind it are all of the text. -/
theorem comment?_append {cs taken rest : List Char} (h : comment? cs = some (taken, rest)) :
    taken ++ rest = cs := by
  induction cs generalizing taken rest with
  | nil => cases h
  | cons c cs ih =>
    unfold comment? at h
    split at h
    · cases h
      rename_i heq
      exact heq.symm
    · rename_i heq
      obtain ⟨⟨taken', rest'⟩, hrest, h⟩ := Option.map_eq_some_iff.1 h
      cases h
      cases heq
      rw [List.cons_append, ih hrest]
    · cases h

theorem textRun_append (cs : List Char) : (textRun cs).1 ++ (textRun cs).2 = cs := by
  induction cs with
  | nil => rfl
  | cons c cs ih =>
    unfold textRun
    split
    · rfl
    · simpa using ih

/-! ## Trees -/

namespace RawNode

mutual

/-- The places of a tree and all below it. -/
def spans : RawNode → List Span
  | text _ span => [span]
  | element tag children => tag.span :: spansAll children

/-- The places of some nodes and of all below them. -/
def spansAll : List RawNode → List Span
  | [] => []
  | n :: ns => spans n ++ spansAll ns

end

theorem spansAll_append (ns ms : List RawNode) :
    spansAll (ns ++ ms) = spansAll ns ++ spansAll ms := by
  induction ns with
  | nil => rfl
  | cons n ns ih => simp [spansAll, ih]

theorem spansAll_reverse (ns : List RawNode) : (spansAll ns.reverse).Perm (spansAll ns) := by
  induction ns with
  | nil => rfl
  | cons n ns ih =>
    rw [List.reverse_cons, spansAll_append, spansAll, spansAll, spansAll, List.append_nil]
    exact (ih.append_right _).trans List.perm_append_comm

end RawNode

namespace Forest

open RawNode (spansAll)

/-- The places of the elements that are still open, with their children so far. -/
def openedSpans : List (OpenTag × List RawNode) → List Span
  | [] => []
  | (tag, children) :: outer => tag.span :: spansAll children ++ openedSpans outer

/-- The places of what has been read so far, with those of the tags that are open. -/
def spans (f : Forest) : List Span := openedSpans f.opened ++ spansAll f.done

/-- A new node adds its places to those before. -/
theorem perm_spans_add (f : Forest) (n : RawNode) : (f.add n).spans.Perm (n.spans ++ f.spans) := by
  obtain ⟨opened, done⟩ := f
  cases opened with
  | nil => exact .refl _
  | cons e outer =>
    obtain ⟨tag, children⟩ := e
    simp only [add, spans, openedSpans, spansAll, List.cons_append, List.append_assoc]
    exact List.perm_middle.symm

/-- A closing tag keeps what there is. -/
theorem perm_spans_close {tag : OpenTag} {children : List RawNode}
    {outer : List (OpenTag × List RawNode)} {done : List RawNode} :
    (add ⟨outer, done⟩ (.element tag children.reverse)).spans.Perm
      (spans ⟨(tag, children) :: outer, done⟩) := by
  refine (perm_spans_add _ _).trans ?_
  simp only [RawNode.spans, spans, openedSpans, List.cons_append, List.append_assoc]
  exact ((RawNode.spansAll_reverse children).append_right _).cons _

end Forest

/-- Nodes whose places lie in a text of so many bytes. -/
structure Bounded (size count : Nat) (places : List Span) : Prop where
  within : ∀ s ∈ places, s.Within size
  length : places.length ≤ count

namespace Bounded

variable {count : Nat} {places more : List Span}

theorem perm (h : Bounded size count places) (hp : more.Perm places) : Bounded size count more :=
  ⟨fun s hs => h.within s (hp.mem_iff.1 hs), Nat.le_trans (Nat.le_of_eq hp.length_eq) h.length⟩

theorem cons {s : Span} (hs : s.Within size) (h : Bounded size count places) :
    Bounded size (count + 1) (s :: places) :=
  ⟨List.forall_mem_cons.2 ⟨hs, h.within⟩, Nat.succ_le_succ h.length⟩

theorem mono {count' : Nat} (h : Bounded size count places) (hle : count ≤ count') :
    Bounded size count' places := ⟨h.within, Nat.le_trans h.length hle⟩

end Bounded

open RawNode (spansAll)

/-- What has been read in the end is bounded as what was open. -/
theorem bounded_done {f : Forest} {count : Nat} (h : Bounded size count f.spans) :
    Bounded size count (spansAll f.done.reverse) := by
  refine Bounded.perm ⟨fun s hs => h.within s (List.mem_append_right _ hs), ?_⟩
    (RawNode.spansAll_reverse f.done)
  have hlength := h.length
  rw [Forest.spans, List.length_append] at hlength
  omega

/-- Each round adds one place at the most. -/
theorem bounded_nodes {maxDepth fuel count : Nat} {f : Forest} {c : Cursor} {raw : List RawNode}
    (hf : Bounded size count f.spans) (hc : c.Within size)
    (h : nodes maxDepth fuel f c = .ok raw) : Bounded size (count + fuel) (spansAll raw) := by
  induction fuel generalizing count f c with
  | zero =>
    cases h
    exact bounded_done hf
  | succ fuel ih =>
    have hstep {count' : Nat} {f' : Forest} {c' : Cursor} (hf' : Bounded size count' f'.spans)
        (hle : count' ≤ count + 1) (hc' : c'.Within size)
        (h' : nodes maxDepth fuel f' c' = .ok raw) :
        Bounded size (count + (fuel + 1)) (spansAll raw) :=
      (ih hf' hc' h').mono (by omega)
    unfold nodes at h
    dsimp only at h
    split at h
    · split at h
      · cases h
      · cases h
        exact (bounded_done hf).mono (Nat.le_add_right _ _)
    · split at h
      · split at h
        · rename_i taken rest hcomment
          exact hstep hf (Nat.le_succ _) (hc.behind (comment?_append hcomment)) h
        · cases h
      · split at h
        · obtain ⟨⟨tag, c'⟩, hclose, h⟩ := bind_eq_ok.1 h
          dsimp only at h
          split at h
          · rename_i opened children outer hopened
            split at h
            · refine hstep (hf.perm ?_) (Nat.le_succ _) (within_closingTag hc hclose) h
              obtain ⟨opened, done⟩ := f
              cases hopened
              exact Forest.perm_spans_close
            · cases h
          · cases h
        · split at h
          · obtain ⟨⟨⟨tag, closed⟩, c'⟩, hopen, h⟩ := bind_eq_ok.1 h
            obtain ⟨htag, hc'⟩ := within_openTag hc hopen
            dsimp only at h
            split at h
            · cases h
            · split at h
              · exact hstep ((hf.cons htag).perm (f.perm_spans_add _)) (Nat.le_refl _) hc' h
              · exact hstep (hf.cons htag) (Nat.le_refl _) hc' h
          · have hspan := (hc.behind (textRun_append c.rest)).span c.pos
            exact hstep ((hf.cons hspan.1).perm (f.perm_spans_add _)) (Nat.le_refl _) hspan.2 h

/-- All places of a text that has been read lie in the text, and there are not many more of them
than there are characters. -/
theorem bounded_parse {maxDepth : Nat} {src : String} {raw : List RawNode}
    (h : parse maxDepth src = .ok raw) :
    Bounded src.utf8ByteSize (src.utf8ByteSize + 1) (spansAll raw) := by
  have hlength := Text.length_le_byteLength src.toList
  have hcursor := Cursor.within_ofChars src.toList
  rw [Text.byteLength_toList] at hlength hcursor
  have hempty : Bounded src.utf8ByteSize 0 (Forest.spans ⟨[], []⟩) :=
    ⟨List.forall_mem_nil _, Nat.le_refl _⟩
  exact (bounded_nodes hempty hcursor h).mono (by omega)

end Markup

end Archipelago
