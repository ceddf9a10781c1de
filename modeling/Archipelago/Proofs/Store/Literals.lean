import Archipelago.Proofs.Json.Trimmed
import Archipelago.Proofs.Store.Overwrites
import Archipelago.Proofs.Value.Rereading
import Archipelago.Template.Node

/-!
# Literals and declarations of the same text

A declaration reads its text for the type of the variable. A step that writes a literal guesses what
the text is before the type is known, and the write coerces the guess. Both come to the same value
but for variables that hold strings, where a word, a number or JSON is no longer the text it was.
-/

namespace Archipelago

open Value

@[simp] theorem parseNumber_trim (text : String) :
    parseNumber (Text.trim text) = parseNumber text := by
  unfold parseNumber
  rw [Text.trim_trim]

/-- No number starts with what opens a list or an object. -/
theorem Decimal.read?_of_opens {text : String} {c : Char} {cs : List Char}
    (h : text.toList = c :: cs) (hc : c = '[' ∨ c = '{') : read? text = none := by
  have hnames : ∀ word ∈ ["inf", "infinity", "nan"],
      word.toList.head? ≠ some '[' ∧ word.toList.head? ≠ some '{' := by
    decide
  have hlower : c.toLower = c := by
    rcases hc with rfl | rfl <;> decide
  have hne : ∀ word ∈ ["inf", "infinity", "nan"],
      String.ofList ((c :: cs).map Char.toLower) ≠ word := by
    rintro _ hword rfl
    have hhead := hnames _ hword
    rw [String.toList_ofList, List.map_cons, hlower, List.head?_cons] at hhead
    rcases hc with rfl | rfl
    · exact hhead.1 rfl
    · exact hhead.2 rfl
  have hnamed : named? (c :: cs) = none := by
    unfold named?
    dsimp only
    rw [if_neg, if_neg (hne "nan" (by decide))]
    simp only [Bool.or_eq_true, decide_eq_true_eq, not_or]
    exact ⟨hne "inf" (by decide), hne "infinity" (by decide)⟩
  have hunsigned : unsigned? (c :: cs) = none := by
    rcases hc with rfl | rfl <;> rfl
  have hplain : read? text = (unsigned? (c :: cs)).or (named? (c :: cs)) := by
    unfold read?
    rw [h]
    rcases hc with rfl | rfl <;> rfl
  rw [hplain, hunsigned, hnamed]
  rfl

theorem parseNumber_of_opens {text : String} {c : Char} {cs : List Char}
    (h : (Text.trim text).toList = c :: cs) (hc : c = '[' ∨ c = '{') : parseNumber text = none := by
  rw [parseNumber, Decimal.read?_of_opens h hc]
  rfl

namespace Value

variable {text : String} {v : Value}

/-! ## JSON -/

/-- The value of JSON text is that of the text without the blanks around it. -/
theorem parse?_trim (h : parse? text = some v) : parse? (Text.trim text) = some v := by
  obtain ⟨j, hj, hv⟩ := Option.bind_eq_some_iff.1 h
  exact Option.bind_eq_some_iff.2 ⟨j, Json.parse_trim hj, hv⟩

/-- Lists and objects are told by the first sign of their text. -/
theorem exists_opens (h : parse? text = some v) : ∃ c cs, (Text.trim text).toList = c :: cs ∧
    (c = '[' ↔ ∃ items, v = array items) ∧ (c = '{' ↔ ∃ fields, v = object fields) := by
  obtain ⟨j, hj, hv⟩ := Option.bind_eq_some_iff.1 h
  obtain ⟨cs, hs, hframed⟩ := Json.framed_trim hj
  obtain ⟨c, cs, rfl, -⟩ := hframed.starts
  refine ⟨c, cs, by rw [hs, String.toList_ofList], ?_⟩
  have hreadable : j ≠ .unreadable := by
    rintro rfl
    cases hv
  obtain ⟨harray, hobject⟩ := hframed.opens hreadable
  rw [harray, hobject]
  cases j with
  | unreadable => exact absurd rfl hreadable
  | array js =>
    obtain ⟨items, -, rfl⟩ := Option.map_eq_some_iff.1 hv
    simp
  | object ms =>
    obtain ⟨fields, -, rfl⟩ := Option.map_eq_some_iff.1 hv
    simp
  | _ =>
    obtain rfl := Option.some.inj hv
    simp

theorem trim_of_null (h : parse? text = some null) : Text.trim text = "null" := by
  obtain ⟨j, hj, hv⟩ := Option.bind_eq_some_iff.1 h
  obtain ⟨cs, hs, hframed⟩ := Json.framed_trim hj
  cases j with
  | null =>
    rw [hs, hframed.eq_of_null]
    rfl
  | array js =>
    obtain ⟨_, -, he⟩ := Option.map_eq_some_iff.1 hv
    cases he
  | object ms =>
    obtain ⟨_, -, he⟩ := Option.map_eq_some_iff.1 hv
    cases he
  | _ => cases hv

/-! ## What a text is guessed to be -/

/-- Texts that are literals of another type. -/
def words : List String := ["true", "false", "null"]

theorem parseNumber_of_word (h : Text.trim text ∈ words) : parseNumber text = none := by
  have hwords : ∀ word ∈ words, parseNumber word = none := by decide +kernel
  rw [← parseNumber_trim]
  exact hwords _ h

theorem ofLiteral_of_not_word (h : Text.trim text ∉ words) : ofLiteral text =
    match parseNumber text with
    | some x => number x
    | none =>
      if Text.startsWith "[" (Text.trim text) || Text.startsWith "\x7b" (Text.trim text) then
        (parse? (Text.trim text)).getD (string text)
      else string text := by
  unfold ofLiteral
  dsimp only
  rw [parseNumber_trim]
  split
  · rename_i hword
    exact absurd (hword ▸ by decide) h
  · rename_i hword
    exact absurd (hword ▸ by decide) h
  · rename_i hword
    exact absurd (hword ▸ by decide) h
  · rfl

theorem ofLiteral_of_bool {b : Bool} (h : Text.trim text = (bool b).display) :
    ofLiteral text = bool b := by
  unfold ofLiteral
  rw [h]
  cases b <;> rfl

theorem ofLiteral_of_null (h : Text.trim text = "null") : ofLiteral text = null := by
  unfold ofLiteral
  rw [h]
  rfl

theorem ofLiteral_of_number {x : Float} (h : parseNumber text = some x) :
    ofLiteral text = number x := by
  rw [ofLiteral_of_not_word, h]
  intro hword
  rw [parseNumber_of_word hword] at h
  cases h

theorem startsWith_iff {s : String} {c : Char} {cs : List Char} (h : s.toList = c :: cs) :
    (Text.startsWith "[" s || Text.startsWith "\x7b" s) = true ↔ c = '[' ∨ c = '{' := by
  have hlists : "[".toList = ['['] ∧ "\x7b".toList = ['{'] := by decide
  unfold Text.startsWith
  rw [h, hlists.1, hlists.2, Bool.or_eq_true]
  show ('[' == c && true) = true ∨ ('{' == c && true) = true ↔ _
  rw [Bool.and_true, Bool.and_true, beq_iff_eq, beq_iff_eq]
  exact ⟨Or.imp Eq.symm Eq.symm, Or.imp Eq.symm Eq.symm⟩

theorem ofLiteral_of_parse? (h : parse? (Text.trim text) = some v)
    (hv : (∃ items, v = array items) ∨ ∃ fields, v = object fields) : ofLiteral text = v := by
  obtain ⟨c, cs, hcs, harray, hobject⟩ := exists_opens h
  rw [Text.trim_trim] at hcs
  have hc : c = '[' ∨ c = '{' := hv.imp harray.2 hobject.2
  have hword : Text.trim text ∉ words := by
    have hheads : ∀ word ∈ words, word.toList.head? ≠ some '[' ∧ word.toList.head? ≠ some '{' := by
      decide
    intro hword
    have hhead := hheads _ hword
    rw [hcs, List.head?_cons] at hhead
    rcases hc with rfl | rfl
    · exact hhead.1 rfl
    · exact hhead.2 rfl
  rw [ofLiteral_of_not_word hword, parseNumber_of_opens hcs hc]
  dsimp only
  rw [if_pos ((startsWith_iff hcs).2 hc), h]
  rfl

/-- Neither a word nor a number, and no list or object either. -/
def Textual (text : String) : Prop :=
  Text.trim text ∉ words ∧ parseNumber text = none ∧ ∀ v, parse? (Text.trim text) = some v →
    (∀ items, v ≠ array items) ∧ ∀ fields, v ≠ object fields

theorem ofLiteral_of_textual (h : Textual text) : ofLiteral text = string text := by
  obtain ⟨hword, hnumber, hplain⟩ := h
  rw [ofLiteral_of_not_word hword, hnumber]
  dsimp only
  split
  · rename_i hstarts
    cases hparse : parse? (Text.trim text) with
    | none => rfl
    | some v =>
      obtain ⟨c, cs, hcs, harray, hobject⟩ := exists_opens hparse
      obtain ⟨hitems, hfields⟩ := hplain v hparse
      rw [Text.trim_trim] at hcs
      rcases (startsWith_iff hcs).1 hstarts with hc | hc
      · obtain ⟨items, rfl⟩ := harray.1 hc
        exact absurd rfl (hitems items)
      · obtain ⟨fields, rfl⟩ := hobject.1 hc
        exact absurd rfl (hfields fields)
  · rfl

end Value

/-! ## Literals of a type -/

namespace VarType

variable {text : String} {v : Value} (name : String)

theorem coerce_string_eq_ok {s : String} : string.coerce name v = .ok (.string s) ↔
    (∀ items, v ≠ .array items) ∧ (∀ fields, v ≠ .object fields) ∧ v.display = s := by
  cases v with
  | array items => simp [coerce]
  | object fields => simp [coerce]
  | _ => simp [coerce]

/-- A text that is a string just as it stands, or is shown just as it stands for what it is. -/
def Verbatim (text : String) : Prop :=
  Textual text ∨ text = "true" ∨ text = "false" ∨
    ∃ x, parseNumber text = some x ∧ formatNumber x = text

theorem coerce_string_ofLiteral :
    string.coerce name (ofLiteral text) = .ok (.string text) ↔ Verbatim text := by
  constructor
  · intro h
    obtain ⟨hitems, hfields, hdisplay⟩ := (coerce_string_eq_ok name).1 h
    by_cases hword : Text.trim text ∈ words
    · simp only [words, List.mem_cons, List.not_mem_nil, or_false] at hword
      rcases hword with hword | hword | hword
      · rw [ofLiteral_of_bool (b := true) hword] at hdisplay
        exact .inr (.inl hdisplay.symm)
      · rw [ofLiteral_of_bool (b := false) hword] at hdisplay
        exact .inr (.inr (.inl hdisplay.symm))
      · rw [ofLiteral_of_null hword] at hdisplay
        obtain rfl : "" = text := hdisplay
        exact absurd hword (by decide)
    cases hnumber : parseNumber text with
    | some x =>
      rw [ofLiteral_of_number hnumber] at hdisplay
      exact .inr (.inr (.inr ⟨x, hnumber, hdisplay⟩))
    | none =>
      refine .inl ⟨hword, hnumber, fun v hv => ⟨?_, ?_⟩⟩
      · rintro items rfl
        exact hitems items (ofLiteral_of_parse? hv (.inl ⟨items, rfl⟩))
      · rintro fields rfl
        exact hfields fields (ofLiteral_of_parse? hv (.inr ⟨fields, rfl⟩))
  · rintro (h | rfl | rfl | ⟨x, hx, hdisplay⟩)
    · rw [ofLiteral_of_textual h]
      rfl
    · rw [ofLiteral_of_bool (b := true) (by decide)]
      rfl
    · rw [ofLiteral_of_bool (b := false) (by decide)]
      rfl
    · rw [ofLiteral_of_number hx]
      exact congrArg (Except.ok ∘ Value.string) hdisplay

/-- But for strings a literal is coerced to what a declaration of its text starts with. -/
theorem coerce_ofLiteral_of_ne {t : VarType} (ht : t.isReadOnly = false) (hstring : t ≠ .string)
    (h : t.parseInitial text = some v) : t.coerce name (ofLiteral text) = .ok v := by
  cases t with
  | number =>
    obtain ⟨x, hx, rfl⟩ := Option.map_eq_some_iff.1 h
    rw [ofLiteral_of_number hx]
    rfl
  | string => exact absurd rfl hstring
  | boolean =>
    unfold parseInitial at h
    dsimp only at h
    split at h
    · rename_i hword
      obtain rfl := Option.some.inj h
      rw [ofLiteral_of_bool (b := true) hword]
      rfl
    · split at h
      · rename_i hword
        obtain rfl := Option.some.inj h
        rw [ofLiteral_of_bool (b := false) hword]
        rfl
      · cases h
  | array =>
    unfold parseInitial at h
    dsimp only at h
    split at h
    · rename_i items hparse
      obtain rfl := Option.some.inj h
      rw [ofLiteral_of_parse? (parse?_trim hparse) (.inl ⟨items, rfl⟩)]
      rfl
    · cases h
  | object =>
    unfold parseInitial at h
    dsimp only at h
    split at h
    · rename_i fields hparse
      obtain rfl := Option.some.inj h
      rw [ofLiteral_of_parse? (parse?_trim hparse) (.inr ⟨fields, rfl⟩)]
      rfl
    · rename_i hparse
      obtain rfl := Option.some.inj h
      rw [ofLiteral_of_null (trim_of_null hparse)]
      rfl
    · cases h
  | computed => cases ht
  | urlParam => cases ht

end VarType

namespace LiveStore

variable {l : LiveStore}

/-- A literal is coerced to what a declaration of the same text starts with, for a variable of
strings if and only if the text is one that is shown as it stands. The step that writes it is then
executed, whatever has been asked of the store, and the variable has that value afterwards, unless
it has had an equal one that is not the same. -/
theorem Blank.literal_as_declared (hl : l.Blank) (history : List Request) {t : VarType}
    (ht : t.isReadOnly = false) {text : String} {v : Value} (h : t.parseInitial text = some v) :
    (∀ name, t.coerce name (.ofLiteral text) = .ok v ↔ (t = .string → VarType.Verbatim text)) ∧
    ((t = .string → VarType.Verbatim text) → ∀ (name : String) (x : Variable) (locals : Dict Value),
      Dict.get? (l.serve history).kept.store.vars name = some x → x.decl.type = t →
        ∃ changed l',
          (execute locals (.set name (.value (.ofLiteral text)))).run (l.serve history) =
            (.ok changed, l') ∧
          ((x.value.same v = true → x.value = v) → l'.kept.store.get name = .ok v)) := by
  have hcoerce (name : String) :
      t.coerce name (.ofLiteral text) = .ok v ↔ (t = .string → VarType.Verbatim text) := by
    by_cases hstring : t = .string
    · subst hstring
      obtain rfl := Option.some.inj h
      exact (VarType.coerce_string_ofLiteral name).trans ⟨fun h _ => h, fun h => h rfl⟩
    · exact iff_of_true (VarType.coerce_ofLiteral_of_ne name ht hstring h)
        fun he => absurd he hstring
  refine ⟨hcoerce, fun hverbatim name x locals hx htype => ?_⟩
  have hordered := hl.ordered_serve history
  have hwrites : (Action.set name (.value (.ofLiteral text))).writes
      (l.serve history).kept.store locals = .ok [.set name (.ofLiteral text)] := by
    rw [Action.writes, Action.current, Store.get, hx]
    rfl
  obtain ⟨changed, l', commit, hrun, -, hnow⟩ :=
    exists_execute_set hordered hwrites hx (htype ▸ (hcoerce name).2 hverbatim)
  refine ⟨changed, l', hrun, fun hsame => ?_⟩
  rw [Store.get, hnow]
  exact congrArg Except.ok (Value.overwrite_eq_iff.2 hsame)

/-- A list of texts. -/
def tags : VariableDecl := { name := "tags", type := .array, initial := .array [] }

/-- A list with a word and a gap. -/
def gapped : Value := .array [.string "a", .null]

/-- Of the text of a list, a step makes what a declaration does. -/
theorem literal_as_declared_tags : ∃ changed l',
    (execute [] (.set "tags" (.value (.ofLiteral "[\"a\",null]")))).run
      (serve { kept := ⟨{}, none⟩ } [.declare tags]) = (.ok changed, l') ∧
    l'.kept.store.get "tags" = .ok gapped := by
  have htext : gapped.jsonText = "[\"a\",null]" := by decide +kernel
  have hinitial : VarType.array.parseInitial "[\"a\",null]" = some gapped := by
    unfold VarType.parseInitial
    rw [← htext, parse?_jsonText]
    rfl
  obtain ⟨changed, l', hrun, hvalue⟩ :=
    (Blank.literal_as_declared (l := { kept := ⟨{}, none⟩ }) ⟨rfl, rfl, rfl⟩ [.declare tags] rfl
      hinitial).2 nofun "tags" ⟨tags, .array [], none⟩ [] rfl rfl
  exact ⟨changed, l', hrun, hvalue nofun⟩

/-- A text that starts with zeros is a number to a step, and the zeros are lost. The word for no
value becomes the empty text, and the text of a list is refused. -/
theorem literal_ne_declared :
    (VarType.string.parseInitial "007" = some (.string "007") ∧
      VarType.string.coerce "code" (.ofLiteral "007") = .ok (.string "7")) ∧
    (VarType.string.parseInitial "null" = some (.string "null") ∧
      VarType.string.coerce "code" (.ofLiteral "null") = .ok (.string "")) ∧
    (VarType.string.parseInitial "[]" = some (.string "[]") ∧
      VarType.string.coerce "code" (.ofLiteral "[]") =
        .error (.typeMismatch "code" "string" "array")) := by
  have hread : parseNumber "007" = some 7 := by decide +kernel
  have hshown : formatNumber 7 = "7" := by decide +kernel
  have htext : jsonText (.array []) = Text.trim "[]" := by decide +kernel
  have hlist : parse? (Text.trim "[]") = some (.array []) := by
    rw [← htext, parse?_jsonText]
    rfl
  refine ⟨⟨rfl, ?_⟩, ⟨rfl, ?_⟩, rfl, ?_⟩
  · rw [Value.ofLiteral_of_number hread, ← hshown]
    rfl
  · rw [Value.ofLiteral_of_null (by decide)]
    rfl
  · rw [Value.ofLiteral_of_parse? hlist (.inl ⟨[], rfl⟩)]
    rfl

end LiveStore

end Archipelago
