import Archipelago.Proofs.Json.Numbers

/-!
# JSON text that is read back

A document is read back from its text, its numbers as they are read from theirs, and what nests
deeper than the reader allows as nothing at all. The induction is on the document. What carries it
is that a reader takes exactly the text of a value, whatever ends it.
-/

namespace Archipelago.Json

/-! ## Strings -/

/-- How a character is written: by an escape of its own, by its number, or as it is. -/
theorem escapeChar_cases (c : Char) :
    (∃ d, d ≠ 'u' ∧ escapeChar c = ['\\', d] ∧ simpleEscape? d = some c) ∨
    (c.toNat < 0x20 ∧
      escapeChar c = ['\\', 'u', '0', '0', hexDigit (c.toNat / 16), hexDigit (c.toNat % 16)]) ∨
    (c ≠ '"' ∧ c ≠ '\\' ∧ ¬c.toNat < 0x20 ∧ escapeChar c = [c]) := by
  by_cases hquote : c = '"'
  · subst hquote
    exact .inl ⟨'"', by decide, rfl, rfl⟩
  by_cases hslash : c = '\\'
  · subst hslash
    exact .inl ⟨'\\', by decide, rfl, rfl⟩
  by_cases hb : c = '\x08'
  · subst hb
    exact .inl ⟨'b', by decide, rfl, rfl⟩
  by_cases ht : c = '\t'
  · subst ht
    exact .inl ⟨'t', by decide, rfl, rfl⟩
  by_cases hn : c = '\n'
  · subst hn
    exact .inl ⟨'n', by decide, rfl, rfl⟩
  by_cases hf : c = '\x0c'
  · subst hf
    exact .inl ⟨'f', by decide, rfl, rfl⟩
  by_cases hr : c = '\r'
  · subst hr
    exact .inl ⟨'r', by decide, rfl, rfl⟩
  right
  unfold escapeChar
  rw [if_neg hquote, if_neg hslash, if_neg hb, if_neg ht, if_neg hn, if_neg hf, if_neg hr]
  by_cases hsmall : c.toNat < 0x20
  · exact .inl ⟨hsmall, if_pos hsmall⟩
  · exact .inr ⟨hquote, hslash, hsmall, if_neg hsmall⟩

theorem hexValue?_hexDigit : ∀ n < 16, Text.hexValue? (hexDigit n) = some n := by decide

/-- The code of a control character is read from its four digits. -/
theorem hex4_hexDigit {n : Nat} (h : n < 0x20) (rest : Chars) :
    hex4 ('0' :: '0' :: hexDigit (n / 16) :: hexDigit (n % 16) :: rest) = some (n, rest) := by
  have hzero : Text.hexValue? '0' = some 0 := by decide
  have hhigh := hexValue?_hexDigit (n / 16) (by omega)
  have hlow := hexValue?_hexDigit (n % 16) (by omega)
  have hsum : ((0 * 16 + 0) * 16 + n / 16) * 16 + n % 16 = n := by omega
  simp only [hex4, hzero, hhigh, hlow, Option.bind_eq_bind, Option.bind_some, hsum]

/-- An escape by code is read as its character. -/
theorem stringChar_unicode {n : Nat} {cs rest : Chars} (h : hex4 cs = some (n, rest))
    (hn : n < 0x20) : stringChar ('\\' :: 'u' :: cs) = some (some (Char.ofNat n), rest) := by
  have hhigh : ¬0xd800 ≤ n := by omega
  have hlow : ¬0xdc00 ≤ n := by omega
  unfold stringChar
  simp only [h, Option.bind_eq_bind, Option.bind_some, hhigh, hlow, decide_false, Bool.false_and,
    Bool.false_eq_true, if_false]

/-- An escape of one letter is read as what it stands for. -/
theorem stringChar_escape {d c : Char} (hd : d ≠ 'u') (h : simpleEscape? d = some c)
    (rest : Chars) :
    stringChar ('\\' :: d :: rest) = some (some c, rest) := by
  unfold stringChar
  split
  · rename_i he
    cases he
  · rename_i he
    exact absurd (List.cons.inj (List.cons.inj he).2).1 hd
  · rename_i he
    obtain ⟨rfl, rfl⟩ := List.cons.inj (List.cons.inj he).2
    rw [h]
    rfl
  · rename_i hslash he
    obtain ⟨rfl, rfl⟩ := List.cons.inj he
    exact absurd rfl (hslash d rest rfl)

/-- Any other character is read as it is. -/
theorem stringChar_plain {c : Char} (hslash : c ≠ '\\') (hlarge : ¬c.toNat < 0x20) (rest : Chars) :
    stringChar (c :: rest) = some (some c, rest) := by
  unfold stringChar
  split
  · rename_i he
    cases he
  · rename_i he
    exact absurd (List.cons.inj he).1 hslash
  · rename_i he
    exact absurd (List.cons.inj he).1 hslash
  · rename_i he
    obtain ⟨rfl, rfl⟩ := List.cons.inj he
    simp [hslash, hlarge]

/-- A character is read from how it is written. -/
theorem stringChar_escapeChar (c : Char) (rest : Chars) :
    stringChar (escapeChar c ++ rest) = some (some c, rest) := by
  rcases escapeChar_cases c with ⟨d, hd, he, hsimple⟩ | ⟨hsmall, he⟩ | ⟨-, hslash, hlarge, he⟩
  · rw [he]
    exact stringChar_escape hd hsimple rest
  · have hread := stringChar_unicode (hex4_hexDigit hsmall rest) hsmall
    rw [Char.ofNat_toNat] at hread
    rw [he]
    exact hread
  · rw [he]
    exact stringChar_plain hslash hlarge rest

/-- No character is written like the end of a string. -/
theorem escapeChar_head (c : Char) : ∃ d ds, escapeChar c = d :: ds ∧ d ≠ '"' := by
  rcases escapeChar_cases c with ⟨d, -, he, -⟩ | ⟨-, he⟩ | ⟨hquote, -, -, he⟩
  · exact ⟨_, _, he, by decide⟩
  · exact ⟨_, _, he, by decide⟩
  · exact ⟨_, _, he, hquote⟩

theorem stringRest_step {fuel : Nat} {acc : List Char} {whole : Bool} {d c : Char} {cs rest : Chars}
    (hd : d ≠ '"') (h : stringChar (d :: cs) = some (some c, rest)) :
    stringRest (fuel + 1) acc whole (d :: cs) = stringRest fuel (c :: acc) whole rest := by
  rw [stringRest, h]
  · rfl
  · exact fun rest he => hd (List.cons.inj he).1

/-- An escaped text is read up to its closing quote. -/
theorem stringRest_chars (s : List Char) (acc : List Char) (rest : Chars) {fuel : Nat}
    (h : s.length < fuel) :
    stringRest fuel acc true (s.flatMap escapeChar ++ '"' :: rest) =
      some (some (String.ofList (acc.reverse ++ s)), rest) := by
  induction s generalizing acc fuel with
  | nil =>
    obtain ⟨fuel, rfl⟩ := Nat.exists_eq_add_one.2 h
    rw [List.append_nil]
    rfl
  | cons c s ih =>
    obtain ⟨fuel, rfl⟩ := Nat.exists_eq_add_one.2 (Nat.zero_lt_of_lt h)
    obtain ⟨d, ds, he, hd⟩ := escapeChar_head c
    have hread := stringChar_escapeChar c (s.flatMap escapeChar ++ '"' :: rest)
    rw [List.flatMap_cons, List.append_assoc]
    rw [he, List.cons_append] at hread ⊢
    rw [stringRest_step hd hread, ih (c :: acc) (Nat.lt_of_succ_lt_succ h), List.reverse_cons,
      List.append_assoc]
    rfl

theorem length_le_flatMap_escapeChar (s : List Char) :
    s.length ≤ (s.flatMap escapeChar).length := by
  induction s with
  | nil => exact Nat.le_refl _
  | cons c s ih =>
    obtain ⟨d, ds, he, -⟩ := escapeChar_head c
    rw [List.flatMap_cons, List.length_append, he, List.length_cons, List.length_cons]
    omega

theorem toList_quote (s : String) :
    (quote s).toList = '"' :: (s.toList.flatMap escapeChar ++ ['"']) := by
  rw [quote, String.toList_ofList]
  rfl

/-- A string is read from behind its opening quote. -/
theorem stringBody_quote (s : String) (rest : Chars) :
    stringBody (s.toList.flatMap escapeChar ++ '"' :: rest) = some (some s, rest) := by
  unfold stringBody
  rw [stringRest_chars _ _ _ ?_, List.reverse_nil, List.nil_append, String.ofList_toList]
  rw [List.length_append]
  have := length_le_flatMap_escapeChar s.toList
  omega

/-! ## Documents -/

mutual

/-- How deep lists and objects nest. -/
def depth : Json → Nat
  | array items => depthAll items + 1
  | object members => depthMembers members + 1
  | _ => 0

/-- How deep the deepest of some documents nests. -/
def depthAll : List Json → Nat
  | [] => 0
  | j :: js => max (depth j) (depthAll js)

def depthMembers : List (String × Json) → Nat
  | [] => 0
  | (_, j) :: js => max (depth j) (depthMembers js)

end

/-- What is read from the text of a number. -/
def rereadFloat (x : Float) : Json :=
  match Number.read (Decimal.Layout.json.format x).toList with
  | some (j, _) => j
  | none => .unreadable

mutual

/-- The document with its numbers as they are read. -/
def reread : Json → Json
  | float x => rereadFloat x
  | array items => array (rereadAll items)
  | object members => object (rereadMembers members)
  | j => j

def rereadAll : List Json → List Json
  | [] => []
  | j :: js => reread j :: rereadAll js

def rereadMembers : List (String × Json) → List (String × Json)
  | [] => []
  | (k, j) :: js => (k, reread j) :: rereadMembers js

end

mutual

/-- What is read from the text of a document: nothing below so many levels. -/
def readWithin (limit : Nat) : Json → Json
  | float x => rereadFloat x
  | array items => if limit = 0 then unreadable else array (readAllWithin (limit - 1) items)
  | object members =>
    if limit = 0 then unreadable else object (readMembersWithin (limit - 1) members)
  | j => j

def readAllWithin (limit : Nat) : List Json → List Json
  | [] => []
  | j :: js => readWithin limit j :: readAllWithin limit js

def readMembersWithin (limit : Nat) : List (String × Json) → List (String × Json)
  | [] => []
  | (k, j) :: js => (k, readWithin limit j) :: readMembersWithin limit js

end

mutual

/-- A document whose numbers can be read from their texts. -/
def Printable : Json → Prop
  | int n => FitsInt n
  | float x => ∃ j, Number.read (Decimal.Layout.json.format x).toList = some (j, [])
  | array items => PrintableAll items
  | object members => PrintableMembers members
  | unreadable => False
  | null | bool _ | string _ => True

/-- All items of a list can be read from their texts. -/
def PrintableAll : List Json → Prop
  | [] => True
  | j :: js => Printable j ∧ PrintableAll js

def PrintableMembers : List (String × Json) → Prop
  | [] => True
  | (_, j) :: js => Printable j ∧ PrintableMembers js

end

theorem rereadMembers_eq (ms : List (String × Json)) :
    rereadMembers ms = ms.map fun m => (m.1, m.2.reread) := by
  induction ms with
  | nil => rfl
  | cons m ms ih => rw [rereadMembers, ih, List.map_cons]

theorem readAllWithin_eq (limit : Nat) (js : List Json) :
    readAllWithin limit js = js.map (readWithin limit) := by
  induction js with
  | nil => rfl
  | cons j js ih => rw [readAllWithin, ih, List.map_cons]

theorem readMembersWithin_eq (limit : Nat) (ms : List (String × Json)) :
    readMembersWithin limit ms = ms.map fun m => (m.1, m.2.readWithin limit) := by
  induction ms with
  | nil => rfl
  | cons m ms ih => rw [readMembersWithin, ih, List.map_cons]

mutual

/-- All of a document is read that nests no deeper. -/
theorem readWithin_eq_reread : ∀ {j : Json} {limit : Nat}, j.depth ≤ limit →
    j.readWithin limit = j.reread
  | null, _, _ | bool _, _, _ | int _, _, _ | float _, _, _ | string _, _, _
  | unreadable, _, _ => rfl
  | array items, limit, h => by
    rw [depth] at h
    rw [readWithin, if_neg (by omega), readAllWithin_eq_rereadAll (by omega), reread]
  | object members, limit, h => by
    rw [depth] at h
    rw [readWithin, if_neg (by omega), readMembersWithin_eq_rereadMembers (by omega), reread]

/-- Where the limit suffices nothing is cut off. -/
theorem readAllWithin_eq_rereadAll : ∀ {js : List Json} {limit : Nat}, depthAll js ≤ limit →
    readAllWithin limit js = rereadAll js
  | [], _, _ => rfl
  | j :: js, limit, h => by
    rw [depthAll] at h
    rw [readAllWithin, readWithin_eq_reread (by omega), readAllWithin_eq_rereadAll (by omega),
      rereadAll]

theorem readMembersWithin_eq_rereadMembers : ∀ {ms : List (String × Json)} {limit : Nat},
    depthMembers ms ≤ limit → readMembersWithin limit ms = rereadMembers ms
  | [], _, _ => rfl
  | (k, j) :: ms, limit, h => by
    rw [depthMembers] at h
    rw [readMembersWithin, readWithin_eq_reread (by omega),
      readMembersWithin_eq_rereadMembers (by omega), rereadMembers]

end

theorem printableAll_iff {js : List Json} : PrintableAll js ↔ ∀ j ∈ js, j.Printable := by
  induction js with
  | nil => simp [PrintableAll]
  | cons j js ih => simp [PrintableAll, ih]

theorem printableMembers_iff {ms : List (String × Json)} :
    PrintableMembers ms ↔ ∀ m ∈ ms, m.2.Printable := by
  induction ms with
  | nil => simp [PrintableMembers]
  | cons m ms ih => simp [PrintableMembers, ih]

/-! ## How texts begin and end -/

/-- Parts of a list or of an object with commas between them. -/
def joined (parts : List Chars) : Chars := [','].intercalate parts

theorem joined_cons_cons (p q : Chars) (ps : List Chars) :
    joined (p :: q :: ps) = p ++ ',' :: joined (q :: ps) := by
  rw [joined, List.intercalate_cons_cons, List.append_assoc]
  rfl

theorem joined_singleton (p : Chars) : joined [p] = p := List.intercalate_singleton

/-- The characters of the text of a document. -/
def chars (j : Json) : Chars := j.text.toList

/-- A member as it is written. -/
def memberChars (m : String × Json) : Chars := (quote m.1).toList ++ ':' :: m.2.chars

/-- A list is its items with commas between them, in brackets. -/
theorem chars_array (items : List Json) :
    (array items).chars = '[' :: (joined (items.map chars) ++ [']']) := by
  have hparts : (items.map text).map String.toList = items.map chars := List.map_map
  rw [chars, text, texts_eq_map, String.toList_append, String.toList_append,
    String.toList_intercalate, hparts]
  rfl

theorem memberTexts_eq (ms : List (String × Json)) :
    (memberTexts ms).map String.toList = ms.map memberChars := by
  induction ms with
  | nil => rfl
  | cons m ms ih =>
    obtain ⟨k, j⟩ := m
    rw [memberTexts, List.map_cons, ih, String.toList_append, String.toList_append,
      List.append_assoc]
    rfl

/-- An object is its members with commas between them, in braces. -/
theorem chars_object (members : List (String × Json)) :
    (object members).chars = '{' :: (joined (members.map memberChars) ++ ['}']) := by
  rw [chars, text, String.toList_append, String.toList_append, String.toList_intercalate,
    memberTexts_eq]
  rfl

/-- A string is its escaped characters, in quotes. -/
theorem chars_string (s : String) :
    (string s).chars = '"' :: (s.toList.flatMap escapeChar ++ ['"']) := toList_quote s

/-- A text that starts neither with a blank nor with the end of a list or of an object. -/
def Starts (cs : Chars) : Prop :=
  ∃ c cs', cs = c :: cs' ∧ c ∉ [' ', '\t', '\n', '\r', ']', '}']

theorem Starts.of_cons {c : Char} {cs : Chars} (h : c ∉ [' ', '\t', '\n', '\r', ']', '}']) :
    Starts (c :: cs) := ⟨c, cs, rfl, h⟩

theorem Starts.append {cs : Chars} (h : Starts cs) (rest : Chars) : Starts (cs ++ rest) := by
  obtain ⟨c, cs, rfl, hc⟩ := h
  exact .of_cons hc

theorem starts_of_number {cs tail : Chars} {j : Json} (h : Number.read cs = some (j, tail)) :
    Starts cs := by
  obtain ⟨c, cs, rfl, hc⟩ := Number.exists_head h
  refine .of_cons ?_
  rcases hc with rfl | hdigit
  · decide
  · intro hmem
    simp only [List.mem_cons, List.not_mem_nil, or_false] at hmem
    rcases hmem with rfl | rfl | rfl | rfl | rfl | rfl <;> cases hdigit

/-- No document starts with a blank, or with what closes a list or an object. -/
theorem starts_chars {j : Json} (h : j.Printable) : Starts j.chars := by
  cases j with
  | null => exact .of_cons (by decide)
  | bool b =>
    cases b with
    | true => exact .of_cons (by decide)
    | false => exact .of_cons (by decide)
  | int n =>
    have hread : Number.read (chars (.int n) ++ []) = _ := Number.read_int h True.intro
    rw [List.append_nil] at hread
    exact starts_of_number hread
  | float x =>
    obtain ⟨j, hread⟩ := h
    exact starts_of_number hread
  | string s =>
    rw [chars_string]
    exact .of_cons (by decide)
  | array items =>
    rw [chars_array]
    exact .of_cons (by decide)
  | object members =>
    rw [chars_object]
    exact .of_cons (by decide)
  | unreadable => exact h.elim

theorem skipBlanks_of_starts {cs : Chars} (h : Starts cs) : skipBlanks cs = cs := by
  obtain ⟨c, cs, rfl, hc⟩ := h
  simp only [List.mem_cons, List.not_mem_nil, or_false, not_or] at hc
  unfold skipBlanks
  rw [List.dropWhile_cons_of_neg]
  simp [hc]

/-! ## Lists and objects -/

section

variable {v : Reader Json} {f : Json → Json}

/-- What follows an item: the next one, or the end of the list. -/
def afterItem (v : Reader Json) (fuel : Nat) (acc : List Json) (j : Json) (rest : Chars) :
    Option (List Json × Chars) :=
  match skipBlanks rest with
  | ',' :: rest => items v fuel true (j :: acc) rest
  | ']' :: rest => some ((j :: acc).reverse, rest)
  | _ => none

/-- An item that is read is followed by a comma or by the end of the list. -/
theorem items_of_starts {fuel : Nat} {more : Bool} {acc : List Json} {cs rest : Chars} {j : Json}
    (h : Starts cs) (hv : v cs = some (j, rest)) :
    items v (fuel + 1) more acc cs = afterItem v fuel acc j rest := by
  obtain ⟨c, cs, rfl, hc⟩ := h
  rw [items, skipBlanks_of_starts ⟨c, cs, rfl, hc⟩]
  split
  · rename_i he
    exact absurd (by rw [(List.cons.inj he).1]; decide) hc
  · rw [hv]
    rfl

/-- All items of a list are read in order. -/
theorem items_joined {js : List Json} (hne : js ≠ []) (hp : ∀ j ∈ js, j.Printable)
    (hv : ∀ j ∈ js, ∀ rest, Ends rest → v (j.chars ++ rest) = some (f j, rest))
    (more : Bool) (acc : List Json) {fuel : Nat} (hfuel : js.length ≤ fuel) (rest : Chars) :
    items v fuel more acc (joined (js.map chars) ++ ']' :: rest) =
      some (acc.reverse ++ js.map f, rest) := by
  induction js generalizing more acc fuel with
  | nil => exact absurd rfl hne
  | cons j js ih =>
    obtain ⟨fuel, rfl⟩ := Nat.exists_eq_add_one.2 (Nat.lt_of_lt_of_le (Nat.succ_pos _) hfuel)
    have hstarts := starts_chars (hp j List.mem_cons_self)
    cases js with
    | nil =>
      have hread := hv j List.mem_cons_self (']' :: rest) (.inr (.inl rfl))
      rw [List.map_singleton, joined_singleton, items_of_starts (hstarts.append _) hread]
      show some ((f j :: acc).reverse, rest) = _
      rw [List.reverse_cons]
      rfl
    | cons i js =>
      have hread := hv j List.mem_cons_self (',' :: (joined ((i :: js).map chars) ++ ']' :: rest))
        (.inl rfl)
      rw [List.map_cons, List.map_cons, joined_cons_cons, List.append_assoc, List.cons_append,
        ← List.map_cons, items_of_starts (hstarts.append _) hread]
      show items v fuel true (f j :: acc) _ = _
      rw [ih (List.cons_ne_nil _ _) (fun j hj => hp j (List.mem_cons_of_mem _ hj))
        (fun j hj => hv j (List.mem_cons_of_mem _ hj)) true _ (Nat.le_of_succ_le_succ hfuel),
        List.reverse_cons, List.append_assoc]
      rfl

theorem starts_memberChars (m : String × Json) : Starts (memberChars m) := by
  rw [memberChars, toList_quote]
  exact .of_cons (by decide)

/-- What follows the name of a member: its value, behind a colon. -/
def afterName (v : Reader Json) (k : Option String) (rest : Chars) :
    Option ((Option String × Json) × Chars) :=
  match skipBlanks rest with
  | ':' :: rest => do
    let (j, rest) ← v (skipBlanks rest)
    some ((k, j), rest)
  | _ => none

theorem member_quote (cs : Chars) :
    member v ('"' :: cs) = (stringBody cs).bind fun r => afterName v r.1 r.2 := rfl

/-- A member is read from its text if its value is. -/
theorem member_memberChars {m : String × Json} {rest : Chars} (hp : m.2.Printable)
    (hv : v (m.2.chars ++ rest) = some (f m.2, rest)) :
    member v (memberChars m ++ rest) = some ((some m.1, f m.2), rest) := by
  have hcolon : skipBlanks (':' :: (m.2.chars ++ rest)) = ':' :: (m.2.chars ++ rest) :=
    skipBlanks_of_starts (.of_cons (by decide))
  have hvalue := skipBlanks_of_starts ((starts_chars hp).append rest)
  have hchars : memberChars m ++ rest =
      '"' :: (m.1.toList.flatMap escapeChar ++ '"' :: ':' :: (m.2.chars ++ rest)) := by
    rw [memberChars, toList_quote]
    simp only [List.cons_append, List.append_assoc, List.nil_append]
  rw [hchars, member_quote, stringBody_quote, Option.bind_some, afterName, hcolon]
  show (v (skipBlanks (m.2.chars ++ rest))).bind _ = _
  rw [hvalue, hv]
  rfl

/-- What follows a member: the next one, or the end of the object. -/
def afterMember (v : Reader Json) (fuel : Nat) (acc : List (Option String × Json))
    (m : Option String × Json) (rest : Chars) : Option (List (Option String × Json) × Chars) :=
  match skipBlanks rest with
  | ',' :: rest => members v fuel true (m :: acc) rest
  | '}' :: rest => some ((m :: acc).reverse, rest)
  | _ => none

/-- A member that is read is followed by a comma or by the end of the object. -/
theorem members_of_starts {fuel : Nat} {more : Bool} {acc : List (Option String × Json)}
    {cs rest : Chars} {m : Option String × Json} (h : Starts cs)
    (hv : member v cs = some (m, rest)) :
    members v (fuel + 1) more acc cs = afterMember v fuel acc m rest := by
  obtain ⟨c, cs, rfl, hc⟩ := h
  rw [members, skipBlanks_of_starts ⟨c, cs, rfl, hc⟩]
  split
  · rename_i he
    exact absurd (by rw [(List.cons.inj he).1]; decide) hc
  · rw [hv]
    rfl

/-- All members of an object are read in order. -/
theorem members_joined {ms : List (String × Json)} (hne : ms ≠ []) (hp : ∀ m ∈ ms, m.2.Printable)
    (hv : ∀ m ∈ ms, ∀ rest, Ends rest → v (m.2.chars ++ rest) = some (f m.2, rest))
    (more : Bool) (acc : List (Option String × Json)) {fuel : Nat} (hfuel : ms.length ≤ fuel)
    (rest : Chars) :
    members v fuel more acc (joined (ms.map memberChars) ++ '}' :: rest) =
      some (acc.reverse ++ ms.map fun m => (some m.1, f m.2), rest) := by
  induction ms generalizing more acc fuel with
  | nil => exact absurd rfl hne
  | cons m ms ih =>
    obtain ⟨fuel, rfl⟩ := Nat.exists_eq_add_one.2 (Nat.lt_of_lt_of_le (Nat.succ_pos _) hfuel)
    have hstarts := starts_memberChars m
    have hread := fun rest hrest =>
      member_memberChars (hp m List.mem_cons_self) (hv m List.mem_cons_self rest hrest)
    cases ms with
    | nil =>
      have hlast := hread ('}' :: rest) (.inr (.inr rfl))
      rw [List.map_singleton, joined_singleton, members_of_starts (hstarts.append _) hlast]
      show some (((some m.1, f m.2) :: acc).reverse, rest) = _
      rw [List.reverse_cons]
      rfl
    | cons n ms =>
      have hnext := hread (',' :: (joined ((n :: ms).map memberChars) ++ '}' :: rest)) (.inl rfl)
      rw [List.map_cons, List.map_cons, joined_cons_cons, List.append_assoc, List.cons_append,
        ← List.map_cons, members_of_starts (hstarts.append _) hnext]
      show members v fuel true ((some m.1, f m.2) :: acc) _ = _
      rw [ih (List.cons_ne_nil _ _) (fun m hm => hp m (List.mem_cons_of_mem _ hm))
        (fun m hm => hv m (List.mem_cons_of_mem _ hm)) true _ (Nat.le_of_succ_le_succ hfuel),
        List.reverse_cons, List.append_assoc]
      rfl

/-- Members with names make the object that has them. -/
theorem ofMembers_some (ms : List (String × Json)) :
    ofMembers (ms.map fun m => (some m.1, m.2)) = .object ms := by
  have hall : (ms.map fun m => (some m.1, m.2)).mapM
      (fun m : Option String × Json => m.1.map (·, m.2)) = some ms := by
    induction ms with
    | nil => rfl
    | cons m ms ih =>
      rw [List.map_cons, List.mapM_cons, ih]
      rfl
  unfold ofMembers
  rw [hall]

end

/-! ## Values -/

theorem length_le_joined {ps : List Chars} (h : ∀ p ∈ ps, Starts p) :
    ps.length ≤ (joined ps).length := by
  induction ps with
  | nil => exact Nat.zero_le _
  | cons p ps ih =>
    have hpos : 0 < p.length := by
      obtain ⟨c, cs, rfl, -⟩ := h p List.mem_cons_self
      exact Nat.succ_pos _
    cases ps with
    | nil => rwa [joined_singleton]
    | cons q ps =>
      have hrest := ih fun p hp => h p (List.mem_cons_of_mem _ hp)
      have hjoined := congrArg List.length (joined_cons_cons p q ps)
      rw [List.length_append, List.length_cons] at hjoined
      rw [List.length_cons]
      omega

/-- Numbers are told by how they start. -/
theorem value_of_number {room limit : Nat} {cs rest : Chars} {j : Json}
    (h : Number.read cs = some (j, rest)) : value (room + 1) limit cs = some (j, rest) := by
  obtain ⟨c, cs, rfl, hc⟩ := Number.exists_head h
  have hne : ∀ d ∈ ['"', '[', '{', 'n', 't', 'f'], c ≠ d := by
    intro d hd
    simp only [List.mem_cons, List.not_mem_nil, or_false] at hd
    rcases hc with rfl | hdigit
    · rcases hd with rfl | rfl | rfl | rfl | rfl | rfl <;> decide
    · rintro rfl
      rcases hd with rfl | rfl | rfl | rfl | rfl | rfl <;> cases hdigit
  rw [value]
  · exact h
  all_goals
    intro rest he
    exact hne _ (by decide) (List.cons.inj he).1

theorem depth_le_depthAll {js : List Json} {j : Json} (h : j ∈ js) : depth j ≤ depthAll js := by
  induction js with
  | nil => cases h
  | cons i js ih =>
    rw [depthAll]
    rcases List.mem_cons.1 h with rfl | h
    · exact Nat.le_max_left _ _
    · exact Nat.le_trans (ih h) (Nat.le_max_right _ _)

theorem depth_le_depthMembers {ms : List (String × Json)} {m : String × Json} (h : m ∈ ms) :
    depth m.2 ≤ depthMembers ms := by
  induction ms with
  | nil => cases h
  | cons i ms ih =>
    rw [depthMembers]
    rcases List.mem_cons.1 h with rfl | h
    · exact Nat.le_max_left _ _
    · exact Nat.le_trans (ih h) (Nat.le_max_right _ _)

/-- A document that is read from its text, whatever ends it. -/
def Readable (j : Json) : Prop :=
  ∀ (room limit : Nat) (rest : Chars), j.depth < room → Ends rest →
    value room limit (j.chars ++ rest) = some (j.readWithin limit, rest)

/-- A number is readable if its digits are read up to where it ends. -/
theorem readable_of_number {j : Json} (hj : ∀ limit, j.readWithin limit = j.reread)
    (h : ∀ rest, Ends rest → Number.read (j.chars ++ rest) = some (j.reread, rest)) :
    j.Readable := by
  intro room limit rest hroom hrest
  obtain ⟨room, rfl⟩ := Nat.exists_eq_add_one.2 (Nat.zero_lt_of_lt hroom)
  rw [hj]
  exact value_of_number (h rest hrest)

/-- A string is read back as it is, whatever it contains. -/
theorem readable_string (s : String) : (string s).Readable := by
  intro room limit rest hroom hrest
  obtain ⟨room, rfl⟩ := Nat.exists_eq_add_one.2 (Nat.zero_lt_of_lt hroom)
  rw [chars_string, List.cons_append, List.append_assoc]
  show (stringBody _).map _ = _
  rw [List.singleton_append, stringBody_quote]
  rfl

/-- A list is readable if its items are. -/
theorem readable_array {js : List Json} (hp : ∀ j ∈ js, j.Printable) (h : ∀ j ∈ js, j.Readable) :
    (array js).Readable := by
  intro room limit rest hroom hrest
  rw [depth] at hroom
  obtain ⟨room, rfl⟩ := Nat.exists_eq_add_one.2 (Nat.zero_lt_of_lt hroom)
  rw [chars_array, List.cons_append, List.append_assoc, List.singleton_append]
  have hitems : items (value room (limit - 1)) ((joined (js.map chars) ++ ']' :: rest).length + 1)
      false [] (joined (js.map chars) ++ ']' :: rest) =
        some (js.map (readWithin (limit - 1)), rest) := by
    by_cases hne : js = []
    · subst hne
      rfl
    · refine items_joined hne hp (fun j hj rest hrest => ?_) false [] ?_ rest
      · have := depth_le_depthAll hj
        exact h j hj _ _ rest (by omega) hrest
      · have hstarts : ∀ p ∈ js.map chars, Starts p := by
          intro p hmem
          obtain ⟨j, hj, rfl⟩ := List.mem_map.1 hmem
          exact starts_chars (hp j hj)
        have hlength := length_le_joined hstarts
        rw [List.length_map] at hlength
        rw [List.length_append]
        omega
  show (items _ _ _ _ _).bind _ = _
  rw [hitems, readWithin, readAllWithin_eq]
  rfl

/-- An object is readable if its members are. -/
theorem readable_object {ms : List (String × Json)} (hp : ∀ m ∈ ms, m.2.Printable)
    (h : ∀ m ∈ ms, m.2.Readable) : (object ms).Readable := by
  intro room limit rest hroom hrest
  rw [depth] at hroom
  obtain ⟨room, rfl⟩ := Nat.exists_eq_add_one.2 (Nat.zero_lt_of_lt hroom)
  rw [chars_object, List.cons_append, List.append_assoc, List.singleton_append]
  have hmembers : members (value room (limit - 1))
      ((joined (ms.map memberChars) ++ '}' :: rest).length + 1) false []
      (joined (ms.map memberChars) ++ '}' :: rest) =
        some (ms.map fun m => (some m.1, m.2.readWithin (limit - 1)), rest) := by
    by_cases hne : ms = []
    · subst hne
      rfl
    · refine members_joined hne hp (fun m hm rest hrest => ?_) false [] ?_ rest
      · have := depth_le_depthMembers hm
        exact h m hm _ _ rest (by omega) hrest
      · have hstarts : ∀ p ∈ ms.map memberChars, Starts p := by
          intro p hmem
          obtain ⟨m, -, rfl⟩ := List.mem_map.1 hmem
          exact starts_memberChars m
        have hlength := length_le_joined hstarts
        rw [List.length_map] at hlength
        rw [List.length_append]
        omega
  have hnames := ofMembers_some (ms.map fun m => (m.1, m.2.readWithin (limit - 1)))
  rw [List.map_map] at hnames
  show (members _ _ _ _ _).bind _ = _
  rw [hmembers, readWithin, readMembersWithin_eq, ← hnames]
  rfl

mutual

/-- A document is readable if its numbers are; the induction goes down its levels. -/
theorem readable_of_printable : ∀ {j : Json}, j.Printable → j.Readable
  | null, _ | bool true, _ | bool false, _ => by
    intro room limit rest hroom _
    obtain ⟨room, rfl⟩ := Nat.exists_eq_add_one.2 (Nat.zero_lt_of_lt hroom)
    rfl
  | int n, h =>
    readable_of_number (j := .int n) (fun _ => rfl) fun _ hrest => Number.read_int h hrest
  | float x, h => by
    obtain ⟨j, hread⟩ := h
    refine readable_of_number (fun _ => rfl) fun rest hrest => ?_
    rw [reread, rereadFloat, hread]
    exact Number.read_append hrest hread
  | string s, _ => readable_string s
  | array _, h => readable_array (printableAll_iff.1 h) (readable_of_printableAll h)
  | object _, h => readable_object (printableMembers_iff.1 h) (readable_of_printableMembers h)

theorem readable_of_printableAll : ∀ {js : List Json}, PrintableAll js → ∀ j ∈ js, j.Readable
  | _ :: _, h, _, .head _ => readable_of_printable h.1
  | _ :: _, h, _, .tail _ hj => readable_of_printableAll h.2 _ hj

theorem readable_of_printableMembers :
    ∀ {ms : List (String × Json)}, PrintableMembers ms → ∀ m ∈ ms, m.2.Readable
  | _ :: _, h, _, .head _ => readable_of_printable h.1
  | _ :: _, h, _, .tail _ hm => readable_of_printableMembers h.2 _ hm

end

mutual

/-- No document nests deeper than its text is long. -/
theorem depth_le_length : ∀ (j : Json), j.depth ≤ j.chars.length
  | null | bool _ | int _ | float _ | string _ | unreadable => Nat.zero_le _
  | array js => by
    have := depthAll_le_length js
    rw [chars_array, depth, List.length_cons, List.length_append]
    omega
  | object ms => by
    have := depthMembers_le_length ms
    rw [chars_object, depth, List.length_cons, List.length_append]
    omega

theorem depthAll_le_length : ∀ (js : List Json), depthAll js ≤ (joined (js.map chars)).length
  | [] => Nat.zero_le _
  | [j] => by
    have := depth_le_length j
    rw [List.map_singleton, joined_singleton, depthAll, depthAll]
    omega
  | j :: i :: js => by
    have hfirst := depth_le_length j
    have hrest := depthAll_le_length (i :: js)
    rw [List.map_cons] at hrest
    rw [List.map_cons, List.map_cons, joined_cons_cons, depthAll, List.length_append,
      List.length_cons]
    omega

theorem depthMembers_le_length :
    ∀ (ms : List (String × Json)), depthMembers ms ≤ (joined (ms.map memberChars)).length
  | [] => Nat.zero_le _
  | [(k, j)] => by
    have := depth_le_length j
    rw [List.map_singleton, joined_singleton, depthMembers, depthMembers, memberChars,
      List.length_append, List.length_cons]
    dsimp only
    omega
  | (k, j) :: i :: ms => by
    have hfirst := depth_le_length j
    have hrest := depthMembers_le_length (i :: ms)
    rw [List.map_cons] at hrest
    rw [List.map_cons, List.map_cons, joined_cons_cons, depthMembers, List.length_append,
      List.length_cons, memberChars, List.length_append, List.length_cons]
    dsimp only
    omega

end

/-- A document is read from its text but for what nests too deep. -/
theorem parse_text {j : Json} (h : j.Printable) : parse j.text = some (j.readWithin 127) := by
  have hread := readable_of_printable h _ 127 [] (Nat.lt_succ_of_le (depth_le_length j)) True.intro
  rw [List.append_nil] at hread
  show (match value (j.chars.length + 1) 127 (skipBlanks j.chars) with
    | some (j, rest) => if (skipBlanks rest).isEmpty then some j else none
    | none => none) = _
  rw [skipBlanks_of_starts (starts_chars h), hread]
  rfl

/-! ## Texts of numbers -/

section

variable {cs : Chars} (h : ∀ c ∈ cs, Numeral c)
include h

theorem skipBlanks_of_numeral : skipBlanks cs = cs := by
  cases cs with
  | nil => rfl
  | cons c cs =>
    refine skipBlanks_of_starts (.of_cons fun hmem => ?_)
    simp only [List.mem_cons, List.not_mem_nil, or_false] at hmem
    have hc := h c List.mem_cons_self
    rcases hmem with rfl | rfl | rfl | rfl | rfl | rfl <;> exact absurd hc (by decide)

/-- What starts like a number is read as a number. -/
theorem value_of_numeral (room limit : Nat) : value (room + 1) limit cs = Number.read cs := by
  have hnot {d : Char} (hd : ¬Numeral d) : d ∉ cs := fun hmem => hd (h d hmem)
  rw [value]
  · exact fun rest he => hnot (d := '"') (by decide) (he ▸ List.mem_cons_self)
  · exact fun rest he => hnot (d := '[') (by decide) (he ▸ List.mem_cons_self)
  · exact fun rest he => hnot (d := '{') (by decide) (he ▸ List.mem_cons_self)
  · exact fun rest he => hnot (d := 'u') (by decide) (by simp [he])
  · exact fun rest he => hnot (d := 't') (by decide) (he ▸ List.mem_cons_self)
  · exact fun rest he => hnot (d := 's') (by decide) (by simp [he])

end

/-- A text that is made of the signs of numbers is read as a number, if at all. -/
theorem read_of_parse {s : String} {j : Json} (hs : ∀ c ∈ s.toList, Numeral c)
    (h : parse s = some j) : Number.read s.toList = some (j, []) := by
  unfold parse parseWithin at h
  dsimp only at h
  rw [skipBlanks_of_numeral hs, value_of_numeral hs] at h
  cases hread : Number.read s.toList with
  | none =>
    rw [hread] at h
    cases h
  | some r =>
    obtain ⟨i, rest⟩ := r
    rw [hread] at h
    dsimp only at h
    rw [skipBlanks_of_numeral fun c hc => hs c ((Number.read_suffix hread).subset hc)] at h
    split at h
    · rename_i hrest
      rw [List.isEmpty_iff.1 hrest, Option.some.inj h]
    · cases h

end Archipelago.Json
