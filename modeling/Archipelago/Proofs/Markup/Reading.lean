import Archipelago.Markup.Parser
import Archipelago.Page
import Archipelago.Proofs.Text
import Archipelago.Tag
import Mathlib.Data.List.Basic

/-!
# Tags and texts that are read back

A reader takes exactly what was written for it and leaves what follows. What is found does not hang
on where the cursor stands, so all statements are about the characters in front of it.
-/

namespace Archipelago

namespace Page

open Markup (decode decodeChars maxNameLength reference? referenceAt?)

/-!
## Character references that are read back

A character is written as it is or by its reference. A reference ends with the first semicolon, so
it is read whatever stands behind it, and a text is read back from its characters one by one.
-/

/-- A way to write a character: by a reference, or as it is if that starts none. -/
inductive Writes (c : Char) : List Char → Prop where
  | plain (h : c ≠ '&') : Writes c [c]
  | reference (name : List Char) (hname : reference? name = some c) (hend : ';' ∉ name)
      (hlength : name.length ≤ maxNameLength) : Writes c ('&' :: name ++ [';'])

theorem referenceAt?_append {name : List Char} (hend : ';' ∉ name)
    (hlength : name.length ≤ maxNameLength) (rest : List Char) :
    referenceAt? (name ++ ';' :: rest) = (reference? name).map (·, rest) := by
  have hall : ∀ c ∈ name, decide (c ≠ ';') = true := fun c hc =>
    decide_eq_true fun he => hend (he ▸ hc)
  have hstop : ((';' :: rest).take (maxNameLength - name.length)).takeWhile (· ≠ ';') = [] := by
    cases maxNameLength - name.length with
    | zero => rfl
    | succ n => rfl
  have htake : ((name ++ ';' :: rest).take maxNameLength).takeWhile (· ≠ ';') = name := by
    rw [List.take_append, List.take_of_length_le hlength, List.takeWhile_append_of_pos hall, hstop,
      List.append_nil]
  unfold referenceAt?
  dsimp only
  rw [htake, List.drop_left]
  rfl

/-- A character is read from the way it is written. -/
theorem Writes.decodeChars {c : Char} {cs : List Char} (h : Writes c cs) (fuel : Nat)
    (rest : List Char) :
    decodeChars (fuel + 1) (cs ++ rest) = c :: Markup.decodeChars fuel rest := by
  cases h with
  | plain hne =>
    rw [List.singleton_append, Markup.decodeChars, if_neg hne]
  | reference name hname hend hlength =>
    have hat := referenceAt?_append hend hlength rest
    rw [hname] at hat
    rw [List.cons_append, List.cons_append, List.append_assoc, List.singleton_append,
      Markup.decodeChars, if_pos rfl, hat]
    rfl

theorem Writes.ne_nil {c : Char} {cs : List Char} (h : Writes c cs) : cs ≠ [] := by
  cases h with
  | plain => exact List.cons_ne_nil _ _
  | reference => exact List.cons_ne_nil _ _

section

variable {write : Char → List Char} (h : ∀ c, Writes c (write c))
include h

/-- A text is decoded reference by reference. -/
theorem decodeChars_flatMap (cs : List Char) {fuel : Nat}
    (hfuel : (cs.flatMap write).length ≤ fuel) : decodeChars fuel (cs.flatMap write) = cs := by
  induction cs generalizing fuel with
  | nil => cases fuel <;> rfl
  | cons c cs ih =>
    have hlength := List.length_pos_iff.2 (h c).ne_nil
    rw [List.flatMap_cons, List.length_append] at hfuel
    obtain ⟨fuel, rfl⟩ : ∃ n, fuel = n + 1 := ⟨fuel - 1, by omega⟩
    rw [List.flatMap_cons, (h c).decodeChars, ih (by omega)]

/-- A text is read back whatever characters it has. -/
theorem decode_flatMap (cs : List Char) : decode (cs.flatMap write) = cs :=
  decodeChars_flatMap h cs (Nat.le_refl _)

end

/-! ## Escaped texts -/

/-- Each character of a text is written as itself or by its reference. -/
theorem writes_escapeTextChar (c : Char) : Writes c (escapeTextChar c) := by
  unfold escapeTextChar
  split
  · rename_i he
    subst he
    exact .reference ['a', 'm', 'p'] (by decide) (by decide) (by decide)
  · rename_i hamp
    split
    · rename_i he
      subst he
      exact .reference ['l', 't'] (by decide) (by decide) (by decide)
    · split
      · rename_i he
        subst he
        exact .reference ['g', 't'] (by decide) (by decide) (by decide)
      · exact .plain hamp

theorem writes_escapeAttrChar (c : Char) : Writes c (escapeAttrChar c) := by
  unfold escapeAttrChar
  split
  · rename_i he
    subst he
    exact .reference ['q', 'u', 'o', 't'] (by decide) (by decide) (by decide)
  · split
    · rename_i he
      subst he
      exact .reference ['#', '3', '9'] (by decide) (by decide) (by decide)
    · exact writes_escapeTextChar c

/-- No text starts a tag. -/
theorem angle_notMem_escapeTextChar (c : Char) : '<' ∉ escapeTextChar c := by
  unfold escapeTextChar
  split
  · decide
  · split
    · decide
    · rename_i hangle
      split
      · decide
      · exact fun hm => hangle (List.mem_singleton.1 hm).symm

/-- No value ends the quotes around it. -/
theorem quote_notMem_escapeAttrChar (c : Char) : '"' ∉ escapeAttrChar c := by
  unfold escapeAttrChar escapeTextChar
  split
  · decide
  · rename_i hquote
    split_ifs
    · decide
    · decide
    · decide
    · decide
    · exact fun hm => hquote (List.mem_singleton.1 hm).symm

theorem toList_escapeText (s : String) : (escapeText s).toList = s.toList.flatMap escapeTextChar :=
  String.toList_ofList

theorem toList_escapeAttr (s : String) : (escapeAttr s).toList = s.toList.flatMap escapeAttrChar :=
  String.toList_ofList

/-- A text is read back from its markup. -/
theorem decode_escapeText (s : String) : Markup.decode (escapeText s).toList = s.toList := by
  rw [toList_escapeText, decode_flatMap writes_escapeTextChar]

/-- A value is read back from between its quotes. -/
theorem decode_escapeAttr (s : String) : Markup.decode (escapeAttr s).toList = s.toList := by
  rw [toList_escapeAttr, decode_flatMap writes_escapeAttrChar]

/-- No tag starts in a text that is escaped. -/
theorem angle_notMem_escapeText (s : String) : '<' ∉ (escapeText s).toList := by
  rw [toList_escapeText]
  intro hm
  obtain ⟨c, -, hc⟩ := List.mem_flatMap.1 hm
  exact angle_notMem_escapeTextChar c hc

/-- No value ends before its closing quote. -/
theorem quote_notMem_escapeAttr (s : String) : '"' ∉ (escapeAttr s).toList := by
  rw [toList_escapeAttr]
  intro hm
  obtain ⟨c, -, hc⟩ := List.mem_flatMap.1 hm
  exact quote_notMem_escapeAttrChar c hc

theorem escapeText_append (s t : String) : escapeText (s ++ t) = escapeText s ++ escapeText t := by
  rw [← String.toList_inj, String.toList_append, toList_escapeText, toList_escapeText,
    toList_escapeText, String.toList_append, List.flatMap_append]

theorem escapeText_eq_empty {s : String} : escapeText s = "" ↔ s = "" := by
  constructor
  · intro h
    have hdecode := decode_escapeText s
    rw [h] at hdecode
    exact String.toList_eq_nil_iff.1 hdecode.symm
  · rintro rfl
    rfl

end Page

/-! ## Tags and texts -/

namespace Markup

open Page (escapeText escapeAttr attrText attrTexts)
open Text (Stops stops_cons)

namespace Cursor

variable {c : Cursor} {p : Char → Bool} {taken rest : List Char}

/-- A run of characters is taken up to what stops it. -/
theorem takeWhile_append (h : c.rest = taken ++ rest) (hall : ∀ d ∈ taken, p d = true)
    (hstops : Stops p rest) : (c.takeWhile p).1 = taken ∧ (c.takeWhile p).2.rest = rest := by
  obtain ⟨htaken, hrest⟩ := Text.split_of_stops hall hstops
  constructor
  · show c.rest.takeWhile p = taken
    rw [h, htaken]
  · show c.rest.dropWhile p = rest
    rw [h, hrest]

theorem rest_skipBlanks (h : Stops Text.isBlank c.rest) : c.skipBlanks.rest = c.rest :=
  (takeWhile_append (List.nil_append _).symm (List.forall_mem_nil _) h).2

theorem rest_drop (taken : List Char) (h : c.rest = taken ++ rest) :
    (c.drop taken.length).rest = rest := by
  show c.rest.drop taken.length = rest
  rw [h, List.drop_left]

end Cursor

/-! ## Names -/

/-- A word that can name a tag or an attribute. -/
structure IsName (s : String) : Prop where
  ne_empty : s ≠ ""
  chars : ∀ c ∈ s.toList, isNameChar c = true

instance (s : String) : Decidable (IsName s) :=
  decidable_of_iff (s ≠ "" ∧ s.toList.all isNameChar = true)
    ⟨fun h => ⟨h.1, List.all_eq_true.1 h.2⟩, fun h => ⟨h.ne_empty, List.all_eq_true.2 h.chars⟩⟩

theorem not_isBlank_of_isNameChar {c : Char} (h : isNameChar c = true) :
    Text.isBlank c = false := by
  simp only [isNameChar, Bool.or_eq_true, decide_eq_true_eq] at h
  rcases h with (((h | rfl) | rfl) | rfl) | rfl
  · exact Text.not_isBlank_of_isAlphanum h
  all_goals decide

/-- A name starts with a character that is no blank and ends no tag. -/
theorem IsName.exists_cons {s : String} (h : IsName s) :
    ∃ d ds, s.toList = d :: ds ∧ isNameChar d = true := by
  cases hs : s.toList with
  | nil => exact absurd (String.toList_eq_nil_iff.1 hs) h.ne_empty
  | cons d ds => exact ⟨d, ds, rfl, h.chars d (hs ▸ List.mem_cons_self)⟩

section

variable {c : Cursor} {rest : List Char}

/-- A name is read up to what stops it. -/
theorem name_append {s : String} (hs : ∀ d ∈ s.toList, isNameChar d = true)
    (h : c.rest = s.toList ++ rest) (hstops : Stops isNameChar rest) :
    (name c).1 = s ∧ (name c).2.rest = rest := by
  obtain ⟨htaken, hrest⟩ := Cursor.takeWhile_append h hs hstops
  refine ⟨?_, hrest⟩
  show String.ofList (c.takeWhile isNameChar).1 = s
  rw [htaken, String.ofList_toList]

/-! ## Attributes -/

/-- A value in quotes is read, whatever is behind it. -/
theorem attrValue_quoted (start : Nat) {value : List Char} (hvalue : '"' ∉ value)
    (h : c.rest = '"' :: value ++ '"' :: rest) :
    ∃ c', attrValue start c = .ok (String.ofList (decode value), c') ∧ c'.rest = rest := by
  have hopen : (c.drop 1).rest = value ++ '"' :: rest := Cursor.rest_drop ['"'] h
  obtain ⟨htaken, hrest⟩ := Cursor.takeWhile_append (p := (· ≠ '"')) hopen
    (fun d hd => decide_eq_true fun he => hvalue (he ▸ hd)) (stops_cons (by decide))
  refine ⟨_, ?_, Cursor.rest_drop ['"'] hrest⟩
  unfold attrValue
  rw [h]
  dsimp only [List.cons_append]
  rw [if_pos (by decide), htaken, hrest]
  rfl

/-- An attribute as it is written, without the blank in front of it. -/
theorem toList_attrText (name value : String) : (attrText name value).toList =
    ' ' :: (name.toList ++ '=' :: '"' :: (escapeAttr value).toList ++ ['"']) := by
  simp [attrText]

/-- An attribute is read from the way it is written. -/
theorem readAttr_append (tag : String) {name value : String} (hname : IsName name)
    (h : c.rest = name.toList ++ '=' :: '"' :: (escapeAttr value).toList ++ '"' :: rest) :
    ∃ a c', readAttr tag c = .ok (a, c') ∧ (a.name, a.value) = (name, value) ∧ c'.rest = rest := by
  have hsplit : c.rest = name.toList ++ ('=' :: '"' :: (escapeAttr value).toList ++ '"' :: rest) :=
    h.trans (List.append_assoc ..)
  obtain ⟨hfound, hrest⟩ := name_append hname.chars hsplit (stops_cons (by decide))
  have hequals : (Markup.name c).2.skipBlanks.rest =
      '=' :: '"' :: (escapeAttr value).toList ++ '"' :: rest :=
    (Cursor.rest_skipBlanks (hrest ▸ stops_cons (by decide))).trans hrest
  have hquote : ((Markup.name c).2.skipBlanks.drop 1).rest =
      '"' :: (escapeAttr value).toList ++ '"' :: rest :=
    Cursor.rest_drop ['='] hequals
  obtain ⟨c', hvalue, hc'⟩ := attrValue_quoted c.pos (Page.quote_notMem_escapeAttr value)
    ((Cursor.rest_skipBlanks (hquote ▸ stops_cons (by decide))).trans hquote)
  rw [Page.decode_escapeAttr, String.ofList_toList] at hvalue
  unfold readAttr
  dsimp only
  rw [hfound, if_neg hname.ne_empty, hequals]
  dsimp only [List.cons_append]
  rw [hvalue]
  exact ⟨_, _, rfl, rfl, hc'⟩

theorem attrTexts_cons (a : String × String) (as : Dict String) :
    attrTexts (a :: as) = attrText a.1 a.2 ++ attrTexts as := String.join_cons

/-- Where a name stands, there is one more attribute. -/
theorem attributes_succ (start : Nat) (tag : String) (fuel : Nat) (acc : List Attr) {d : Char}
    {ds : List Char} (h : c.skipBlanks.rest = d :: ds) (hd : isNameChar d = true) :
    attributes start tag (fuel + 1) acc c =
      (readAttr tag c.skipBlanks).bind fun x => attributes start tag fuel (x.1 :: acc) x.2 := by
  rw [attributes]
  dsimp only
  rw [h]
  split
  · rename_i he
    cases he
  · rename_i he
    obtain ⟨rfl, -⟩ := List.cons.inj he
    cases hd
  · rename_i he
    obtain ⟨rfl, -⟩ := List.cons.inj he
    cases hd
  · rename_i he
    obtain ⟨rfl, -⟩ := List.cons.inj he
    cases hd
  · rfl

/-- Attributes are read one by one up to the end of the tag. -/
theorem attributes_append (start : Nat) (tag : String) {as : Dict String}
    (has : ∀ a ∈ as, IsName a.1) (acc : List Attr) {fuel : Nat} (hfuel : c.rest.length ≤ fuel)
    (h : c.rest = (attrTexts as).toList ++ '>' :: rest) :
    ∃ found c', attributes start tag fuel acc c = .ok ((acc.reverse ++ found, false), c') ∧
      found.map (fun a => (a.name, a.value)) = as ∧ c'.rest = rest := by
  induction as generalizing c acc fuel with
  | nil =>
    have hend : c.skipBlanks.rest = '>' :: rest :=
      (Cursor.rest_skipBlanks (h ▸ stops_cons (by decide))).trans h
    obtain ⟨fuel, rfl⟩ : ∃ n, fuel = n + 1 :=
      ⟨fuel - 1, by rw [h] at hfuel; simp at hfuel; omega⟩
    refine ⟨[], _, ?_, rfl, Cursor.rest_drop ['>'] hend⟩
    unfold attributes
    dsimp only
    rw [hend, List.append_nil]
    rfl
  | cons a as ih =>
    obtain ⟨hname, has⟩ := List.forall_mem_cons.1 has
    obtain ⟨d, ds, hd, hchar⟩ := hname.exists_cons
    rw [attrTexts_cons, String.toList_append, toList_attrText] at h
    have hblank : c.skipBlanks.rest = a.1.toList ++ '=' :: '"' :: (escapeAttr a.2).toList ++
        '"' :: ((attrTexts as).toList ++ '>' :: rest) := by
      have hsplit : c.rest = [' '] ++ (a.1.toList ++ '=' :: '"' :: (escapeAttr a.2).toList ++
          '"' :: ((attrTexts as).toList ++ '>' :: rest)) := by
        simpa using h
      refine (Cursor.takeWhile_append hsplit (List.forall_mem_singleton.2 (by decide)) ?_).2
      rw [hd]
      exact stops_cons (not_isBlank_of_isNameChar hchar)
    have hlength := congrArg List.length h
    simp only [List.length_append, List.length_cons] at hlength
    obtain ⟨fuel, rfl⟩ : ∃ n, fuel = n + 1 := ⟨fuel - 1, by omega⟩
    obtain ⟨found, c₁, hread, hfound, hc₁⟩ := readAttr_append tag hname hblank
    have hfuel₁ : c₁.rest.length ≤ fuel := by
      rw [hc₁]
      simp only [List.length_append, List.length_cons]
      omega
    obtain ⟨more, c₂, hmore, hall, hc₂⟩ := ih has (found :: acc) hfuel₁ hc₁
    refine ⟨found :: more, c₂, ?_, ?_, hc₂⟩
    · rw [hd] at hblank
      rw [attributes_succ start tag fuel acc hblank hchar, hread]
      refine hmore.trans ?_
      rw [List.reverse_cons, List.append_assoc, List.singleton_append]
    · rw [List.map_cons, hall, hfound]

/-! ## Tags -/

theorem toList_openTag (tag : String) (as : Dict String) :
    (Page.openTag tag as).toList = '<' :: (tag.toList ++ ((attrTexts as).toList ++ ['>'])) := by
  simp [Page.openTag]

theorem toList_closeTag (tag : String) :
    (Page.closeTag tag).toList = '<' :: '/' :: (tag.toList ++ ['>']) := by
  simp [Page.closeTag]

/-- Behind the name of a tag there is a blank, or the tag ends. -/
theorem stops_attrTexts (as : Dict String) (rest : List Char) :
    Stops isNameChar ((attrTexts as).toList ++ '>' :: rest) := by
  cases as with
  | nil => exact stops_cons (by decide)
  | cons a as =>
    rw [attrTexts_cons, String.toList_append, toList_attrText]
    exact stops_cons (by decide)

/-- An opening tag is read from the way it is written. -/
theorem openTag_append {tag : String} (htag : IsName tag) {as : Dict String}
    (has : ∀ a ∈ as, IsName a.1) {fuel : Nat} (hfuel : c.rest.length ≤ fuel)
    (h : c.rest = (Page.openTag tag as).toList ++ rest) :
    ∃ t c', openTag fuel c = .ok ((t, false), c') ∧ t.name = tag ∧
      t.attrs.map (fun a => (a.name, a.value)) = as ∧ c'.rest = rest := by
  have hname : (c.drop 1).rest = tag.toList ++ ((attrTexts as).toList ++ '>' :: rest) := by
    refine Cursor.rest_drop ['<'] ?_
    rw [h, toList_openTag]
    simp
  obtain ⟨hfound, hattrs⟩ := name_append htag.chars hname (stops_attrTexts as rest)
  have hlength : (name (c.drop 1)).2.rest.length ≤ fuel := by
    rw [h, toList_openTag] at hfuel
    rw [hattrs]
    simp only [List.length_append, List.length_cons, List.length_nil] at hfuel ⊢
    omega
  obtain ⟨found, c', hread, hall, hc'⟩ := attributes_append c.pos tag has [] hlength hattrs
  refine ⟨⟨tag, found, (c'.span c.pos).1⟩, (c'.span c.pos).2, ?_, rfl, hall, hc'⟩
  unfold openTag
  dsimp only
  rw [hfound, hread]
  rfl

/-- A closing tag is read with its name. -/
theorem closingTag_append {tag : String} (htag : IsName tag)
    (h : c.rest = (Page.closeTag tag).toList ++ rest) :
    ∃ c', closingTag c = .ok (tag, c') ∧ c'.rest = rest := by
  have hname : (c.drop 2).rest = tag.toList ++ '>' :: rest := by
    refine Cursor.rest_drop ['<', '/'] ?_
    rw [h, toList_closeTag]
    simp
  obtain ⟨hfound, hrest⟩ := name_append htag.chars hname (stops_cons (by decide))
  have hend : (name (c.drop 2)).2.skipBlanks.rest = '>' :: rest :=
    (Cursor.rest_skipBlanks (hrest ▸ stops_cons (by decide))).trans hrest
  refine ⟨_, ?_, Cursor.rest_drop ['>'] hend⟩
  unfold closingTag
  dsimp only
  rw [hend, hfound]
  rfl

end

/-! ## Texts -/

/-- A text ends in front of these characters. -/
def Ended (rest : List Char) : Prop := rest = [] ∨ startsPiece rest = true

theorem startsPiece_of_ne {d : Char} (hd : d ≠ '<') (ds : List Char) :
    startsPiece (d :: ds) = false := by
  unfold startsPiece startsComment startsClosing startsOpening
  split
  · rename_i he
    exact absurd (List.cons.inj he).1 hd
  · split
    · rename_i he
      exact absurd (List.cons.inj he).1 hd
    · split
      · rename_i he
        exact absurd (List.cons.inj he).1 hd
      · rfl

/-- A text is read up to the next piece. -/
theorem textRun_of_ended {run rest : List Char} (hrun : '<' ∉ run) (hrest : Ended rest) :
    textRun (run ++ rest) = (run, rest) := by
  induction run with
  | nil =>
    rcases hrest with rfl | hpiece
    · rfl
    · cases rest with
      | nil => rfl
      | cons d ds =>
        show textRun (d :: ds) = _
        rw [textRun, if_pos hpiece]
  | cons d run ih =>
    obtain ⟨hd, hrun⟩ := List.ne_and_not_mem_of_not_mem_cons hrun
    have hpiece := startsPiece_of_ne (Ne.symm hd) (run ++ rest)
    rw [List.cons_append, textRun, if_neg (by rw [hpiece]; decide), ih hrun]

/-! ## Rounds -/

/-- A reading that has come to `f` in front of `cs` goes on to a forest with the property in front
of `rest`, wherever in a text that is. -/
def Comes (maxDepth : Nat) (f : Forest) (cs rest : List Char) (P : Forest → Prop) : Prop :=
  ∀ (c : Cursor) (fuel : Nat), c.rest = cs → cs.length < fuel →
    ∃ f' c' fuel', P f' ∧ c'.rest = rest ∧ rest.length < fuel' ∧
      nodes maxDepth fuel f c = nodes maxDepth fuel' f' c'

section

variable {maxDepth : Nat} {f : Forest} {cs rest : List Char} {P Q : Forest → Prop}

namespace Comes

theorem refl (h : P f) : Comes maxDepth f cs cs P := fun c fuel hc hfuel =>
  ⟨f, c, fuel, h, hc, hfuel, rfl⟩

/-- A reading goes on where another one has come. -/
theorem trans {ds : List Char} (h : Comes maxDepth f cs ds P)
    (hnext : ∀ f', P f' → Comes maxDepth f' ds rest Q) : Comes maxDepth f cs rest Q := by
  intro c fuel hc hfuel
  obtain ⟨f₁, c₁, fuel₁, hf₁, hc₁, hfuel₁, hnodes₁⟩ := h c fuel hc hfuel
  obtain ⟨f₂, c₂, fuel₂, hf₂, hc₂, hfuel₂, hnodes₂⟩ := hnext f₁ hf₁ c₁ fuel₁ hc₁ hfuel₁
  exact ⟨f₂, c₂, fuel₂, hf₂, hc₂, hfuel₂, hnodes₁.trans hnodes₂⟩

theorem mono (h : Comes maxDepth f cs rest P) (hPQ : ∀ f', P f' → Q f') :
    Comes maxDepth f cs rest Q := h.trans fun f' hf' => .refl (hPQ f' hf')

end Comes

theorem startsPiece_eq_false {cs : List Char} : startsPiece cs = false ↔
    startsComment cs = false ∧ startsClosing cs = false ∧ startsOpening cs = false := by
  simp [startsPiece, and_assoc]

/-- A text that something follows is one node. -/
theorem comes_text {s : String} (hs : s ≠ "") (hrest : Ended rest) :
    Comes maxDepth f ((escapeText s).toList ++ rest) rest
      fun f' => ∃ span, f' = f.add (.text s span) := by
  intro c fuel hc hfuel
  have hangle := Page.angle_notMem_escapeText s
  have hrun := textRun_of_ended hangle hrest
  have hdecode := Page.decode_escapeText s
  cases htext : (escapeText s).toList with
  | nil => exact absurd (Page.escapeText_eq_empty.1 (String.toList_eq_nil_iff.1 htext)) hs
  | cons d ds =>
    rw [htext] at hc hfuel hangle hrun hdecode
    obtain ⟨hcomment, hclosing, hopening⟩ := startsPiece_eq_false.1
      (startsPiece_of_ne (fun he => hangle (he ▸ List.mem_cons_self)) (ds ++ rest))
    obtain ⟨fuel, rfl⟩ : ∃ n, fuel = n + 1 := ⟨fuel - 1, by omega⟩
    simp only [List.length_append, List.length_cons] at hfuel
    let c' := (c.behind (d :: ds) rest).span c.pos
    refine ⟨f.add (.text s c'.1), c'.2, fuel, ⟨_, rfl⟩, rfl, by omega, ?_⟩
    rw [nodes]
    dsimp only
    rw [hc, hrun, List.cons_append, hcomment, hclosing, hopening, hdecode, String.ofList_toList]
    rfl

/-! ### Tags -/

/-- A word that can name an element. -/
structure IsTag (s : String) : Prop extends IsName s where
  letter : ∀ c ∈ s.toList.head?, c.isAlpha = true

/-- The elements of HTML have names that can be read. -/
theorem isTag_of_isHtmlTag {s : String} (h : isHtmlTag s = true) : IsTag s := by
  have hall : ∀ t ∈ htmlTags, t ≠ "" ∧ t.toList.all isNameChar = true ∧
      t.toList.head?.all Char.isAlpha = true := by
    decide
  obtain ⟨hne, hchars, hletter⟩ := hall s (List.contains_iff_mem.1 h)
  exact ⟨⟨hne, List.all_eq_true.1 hchars⟩, Option.all_eq_true _ _ |>.1 hletter⟩

/-- Where a tag opens, neither a comment nor a closing tag starts. -/
theorem startsOpening_openTag {tag : String} (htag : IsTag tag) (as : Dict String)
    (rest : List Char) :
    startsOpening ((Page.openTag tag as).toList ++ rest) = true ∧
    startsClosing ((Page.openTag tag as).toList ++ rest) = false ∧
    startsComment ((Page.openTag tag as).toList ++ rest) = false := by
  obtain ⟨d, ds, hd, -⟩ := htag.exists_cons
  have halpha : d.isAlpha = true := htag.letter d (by rw [hd]; rfl)
  rw [toList_openTag, hd]
  refine ⟨halpha, ?_, ?_⟩
  · unfold startsClosing
    split
    · rename_i he
      obtain ⟨rfl, -⟩ := List.cons.inj (List.cons.inj he).2
      cases halpha
    · rfl
  · unfold startsComment
    split
    · rename_i he
      obtain ⟨rfl, -⟩ := List.cons.inj (List.cons.inj he).2
      cases halpha
    · rfl

/-- A tag that opens an element, if one more may be open. -/
theorem comes_openTag {tag : String} (htag : IsTag tag) {as : Dict String}
    (has : ∀ a ∈ as, IsName a.1) (hdepth : f.opened.length < maxDepth) :
    Comes maxDepth f ((Page.openTag tag as).toList ++ rest) rest fun f' =>
      ∃ t : OpenTag, t.name = tag ∧ t.attrs.map (fun a => (a.name, a.value)) = as ∧
        f' = if voidElements.contains tag then f.add (.element t [])
          else { f with opened := (t, []) :: f.opened } := by
  intro c fuel hc hfuel
  obtain ⟨fuel, rfl⟩ : ∃ n, fuel = n + 1 := ⟨fuel - 1, by omega⟩
  have hlength : c.rest.length ≤ fuel := by rw [hc]; omega
  obtain ⟨t, c', hread, rfl, htattrs, hc'⟩ := openTag_append htag.toIsName has hlength hc
  obtain ⟨hopening, hclosing, hcomment⟩ := startsOpening_openTag htag as rest
  refine ⟨_, c', fuel, ⟨t, rfl, htattrs, rfl⟩, hc', ?_, ?_⟩
  · rw [toList_openTag] at hfuel
    simp only [List.length_append, List.length_cons] at hfuel
    omega
  · rw [← hc] at hopening hclosing hcomment
    have hempty : c.rest.isEmpty = false := by rw [hc, toList_openTag]; rfl
    rw [nodes, hempty, hcomment, hclosing, hopening, hread]
    dsimp only [bind, Except.bind]
    rw [if_neg Bool.false_ne_true, if_neg Bool.false_ne_true, if_neg Bool.false_ne_true, if_pos rfl,
      if_neg (Nat.not_le.2 hdepth), Bool.false_or, apply_ite (nodes maxDepth fuel), ite_apply]

/-- A tag that closes the innermost element. -/
theorem comes_closeTag {t : OpenTag} {children done : List RawNode}
    {outer : List (OpenTag × List RawNode)} (htag : IsTag t.name) :
    Comes maxDepth ⟨(t, children) :: outer, done⟩ ((Page.closeTag t.name).toList ++ rest) rest
      fun f' => f' = Forest.add ⟨outer, done⟩ (.element t children.reverse) := by
  intro c fuel hc hfuel
  obtain ⟨fuel, rfl⟩ : ∃ n, fuel = n + 1 := ⟨fuel - 1, by omega⟩
  obtain ⟨c', hread, hc'⟩ := closingTag_append htag.toIsName hc
  rw [toList_closeTag] at hc hfuel
  simp only [List.cons_append, List.length_cons, List.length_append] at hc hfuel
  have hpiece : c.rest.isEmpty = false ∧ startsComment c.rest = false ∧
      startsClosing c.rest = true := by
    rw [hc]
    exact ⟨rfl, rfl, rfl⟩
  refine ⟨_, c', fuel, rfl, hc', by omega, ?_⟩
  rw [nodes, hpiece.1, hpiece.2.1, hpiece.2.2, hread]
  dsimp only [bind, Except.bind]
  rw [if_neg Bool.false_ne_true, if_neg Bool.false_ne_true, if_pos rfl, if_pos rfl]

/-- A reading that comes to the end with no element open gives the nodes it has found. -/
theorem parse_of_comes {src : String} {P : List RawNode → Prop}
    (h : Comes maxDepth ⟨[], []⟩ src.toList [] fun f' =>
      ∃ found, f' = ⟨[], found⟩ ∧ P found.reverse) :
    ∃ raw, parse maxDepth src = .ok raw ∧ P raw := by
  obtain ⟨-, c', fuel', ⟨found, rfl, hP⟩, hc', hfuel', hnodes⟩ :=
    h (.ofChars src.toList) (src.toList.length + 1) rfl (Nat.lt_succ_self _)
  obtain ⟨fuel, rfl⟩ : ∃ n, fuel' = n + 1 := ⟨fuel' - 1, (Nat.succ_pred_eq_of_pos hfuel').symm⟩
  refine ⟨found.reverse, hnodes.trans ?_, hP⟩
  rw [nodes, hc']
  rfl

end

/-! ## Nodes in a row -/

namespace Forest

/-- Nodes one after the other. -/
def addAll (f : Forest) (ns : List RawNode) : Forest := ns.foldl add f

variable {f : Forest} {t : OpenTag} {children done : List RawNode}
  {outer : List (OpenTag × List RawNode)}

/-- Nodes are added in order. -/
theorem addAll_append (ns ms : List RawNode) : f.addAll (ns ++ ms) = (f.addAll ns).addAll ms :=
  List.foldl_append

theorem length_opened_add (n : RawNode) : (f.add n).opened.length = f.opened.length := by
  unfold add
  split
  · rename_i he
    rw [he]
    rfl
  · rfl

/-- Nodes that are added close nothing. -/
theorem length_opened_addAll (ns : List RawNode) :
    (f.addAll ns).opened.length = f.opened.length := by
  induction ns generalizing f with
  | nil => rfl
  | cons n ns ih => exact ih.trans (length_opened_add n)

theorem addAll_opened (ns : List RawNode) :
    addAll ⟨(t, children) :: outer, done⟩ ns = ⟨(t, ns.reverse ++ children) :: outer, done⟩ := by
  induction ns generalizing children with
  | nil => rfl
  | cons n ns ih =>
    rw [List.reverse_cons, List.append_assoc]
    exact ih

theorem addAll_done (ns : List RawNode) : addAll ⟨[], done⟩ ns = ⟨[], ns.reverse ++ done⟩ := by
  induction ns generalizing done with
  | nil => rfl
  | cons n ns ih =>
    rw [List.reverse_cons, List.append_assoc]
    exact ih

end Forest

end Markup

end Archipelago
