import Archipelago.Proofs.Json.Floats
import Archipelago.Proofs.Json.Restoring
import Archipelago.Proofs.Value.Plain

/-!
# Values that are read back

A value is read back from its text with its numbers as they are read from theirs. Missing data is
not: it is written as null. No text of an attribute has any.
-/

namespace Archipelago

namespace Value

mutual

/-- The numbers in a value. -/
def numbers : Value → List Float
  | number x => [x]
  | array items => numbersItems items
  | object fields => numbersFields fields
  | undefined | null | bool _ | string _ => []

/-- The numbers of all items. -/
def numbersItems : List Value → List Float
  | [] => []
  | v :: vs => numbers v ++ numbersItems vs

def numbersFields : List (String × Value) → List Float
  | [] => []
  | (_, v) :: fs => numbers v ++ numbersFields fs

end

mutual

/-- The value with other numbers. -/
def mapNumbers (g : Float → Float) : Value → Value
  | number x => number (g x)
  | array items => array (mapItems g items)
  | object fields => object (mapFields g fields)
  | v => v

/-- Items with other numbers in them. -/
def mapItems (g : Float → Float) : List Value → List Value
  | [] => []
  | v :: vs => mapNumbers g v :: mapItems g vs

def mapFields (g : Float → Float) : List (String × Value) → List (String × Value)
  | [] => []
  | (k, v) :: fs => (k, mapNumbers g v) :: mapFields g fs

end

theorem keys_mapFields (g : Float → Float) (fs : Dict Value) :
    Dict.keys (mapFields g fs) = Dict.keys fs := by
  induction fs with
  | nil => rfl
  | cons f fs ih => exact congrArg (f.1 :: ·) ih

theorem toJsonItems_eq_map (vs : List Value) : vs.map toJson = toJsonItems vs := by
  induction vs with
  | nil => rfl
  | cons v vs ih => rw [List.map_cons, ih, toJsonItems]

/-- The text of the number `x` is read as the number `y`. -/
def RereadAs (x y : Float) : Prop := parse? (number x).jsonText = some (number y)

/-- A number is read in a document as it is read on its own. -/
theorem reread_number {x y : Float} (h : RereadAs x y) :
    (Json.ofNumber x).Printable ∧ ofJson? (Json.ofNumber x).reread = some (number y) := by
  obtain ⟨j, hparse, hj⟩ := Option.bind_eq_some_iff.1 h
  replace hparse : Json.parse (Json.ofNumber x).text = some j := hparse
  have hprintable {i : Json} (hi : Json.ofNumber x = i) (hp : i.Printable) (hdepth : i.depth = 0) :
      (Json.ofNumber x).Printable ∧ ofJson? (Json.ofNumber x).reread = some (number y) := by
    rw [hi] at hparse ⊢
    rw [Json.parse_text hp, Json.readWithin_eq_reread (by omega)] at hparse
    exact ⟨hp, Option.some.inj hparse ▸ hj⟩
  have hfloat (hi : Json.ofNumber x = .float x) :
      (Json.ofNumber x).Printable ∧ ofJson? (Json.ofNumber x).reread = some (number y) := by
    rw [hi] at hparse
    exact hprintable hi ⟨j, Json.read_of_parse (fun _ => Json.numeral_of_mem_format _ x) hparse⟩ rfl
  cases hinteger : Decimal.integer? x with
  | some n =>
    have hnumber : Json.ofNumber x =
        if n.natAbs < 9000000000000000 then .int n else .float x := by
      rw [Json.ofNumber, hinteger]
    split at hnumber
    · exact hprintable hnumber ⟨by omega, by omega⟩ rfl
    · exact hfloat hnumber
  | none =>
    have hnumber : Json.ofNumber x = if Decimal.isFinite x then .float x else .null := by
      rw [Json.ofNumber, hinteger]
    split at hnumber
    · exact hfloat hnumber
    · exact hprintable hnumber True.intro rfl

section

variable {g : Float → Float}

mutual

/-- A value is read back with other numbers if it holds no missing data and its objects have each
name once. -/
theorem reread_plain : (v : Value) → v.Plain → (∀ x ∈ v.numbers, RereadAs x (g x)) →
    v.toJson.Printable ∧ ofJson? v.toJson.reread = some (v.mapNumbers g)
  | undefined, h, _ => nomatch h
  | null, _, _ | bool _, _, _ | string _, _, _ => ⟨True.intro, rfl⟩
  | number x, _, hn => reread_number (hn x (List.mem_singleton_self x))
  | array items, h, hn => by
    cases h with
    | array hitems =>
      obtain ⟨hprintable, hread⟩ := reread_items items hitems hn
      refine ⟨hprintable, ?_⟩
      show (ofJsonItems? (Json.rereadAll (toJsonItems items))).map array = _
      rw [hread]
      rfl
  | object fields, h, hn => by
    cases h with
    | object hnodup hfields =>
      obtain ⟨hprintable, hread⟩ := reread_fields fields hfields hn
      refine ⟨hprintable, ?_⟩
      show (ofJsonMembers? (Json.rereadMembers (toJsonFields fields))).map
        (fun ms => object (Dict.ofList ms)) = _
      rw [hread, Option.map_some, Dict.ofList_of_nodup]
      · rfl
      · rwa [keys_mapFields]

theorem reread_items : (vs : List Value) → (∀ v ∈ vs, v.Plain) →
    (∀ x ∈ numbersItems vs, RereadAs x (g x)) → Json.PrintableAll (toJsonItems vs) ∧
      ofJsonItems? (Json.rereadAll (toJsonItems vs)) = some (mapItems g vs)
  | [], _, _ => ⟨True.intro, rfl⟩
  | v :: vs, h, hn => by
    obtain ⟨hv, hvs⟩ := List.forall_mem_cons.1 h
    obtain ⟨hnv, hnvs⟩ := List.forall_mem_append.1 hn
    obtain ⟨hfirst, hread⟩ := reread_plain v hv hnv
    obtain ⟨hrest, hread'⟩ := reread_items vs hvs hnvs
    refine ⟨⟨hfirst, hrest⟩, ?_⟩
    show (ofJson? v.toJson.reread).bind (fun v =>
      (ofJsonItems? (Json.rereadAll (toJsonItems vs))).map (v :: ·)) = _
    rw [hread, hread']
    rfl

theorem reread_fields : (fs : List (String × Value)) → (∀ f ∈ fs, f.2.Plain) →
    (∀ x ∈ numbersFields fs, RereadAs x (g x)) → Json.PrintableMembers (toJsonFields fs) ∧
      ofJsonMembers? (Json.rereadMembers (toJsonFields fs)) = some (mapFields g fs)
  | [], _, _ => ⟨True.intro, rfl⟩
  | (k, v) :: fs, h, hn => by
    obtain ⟨hv, hfs⟩ := List.forall_mem_cons.1 h
    obtain ⟨hnv, hnfs⟩ := List.forall_mem_append.1 hn
    obtain ⟨hfirst, hread⟩ := reread_plain v hv hnv
    obtain ⟨hrest, hread'⟩ := reread_fields fs hfs hnfs
    refine ⟨⟨hfirst, hrest⟩, ?_⟩
    show (ofJson? v.toJson.reread).bind (fun v =>
      (ofJsonMembers? (Json.rereadMembers (toJsonFields fs))).map ((k, v) :: ·)) = _
    rw [hread, hread']
    rfl

end

theorem restores_plain {levels : Nat} {v : Value} (h : v.Plain)
    (hn : ∀ x ∈ v.numbers, RereadAs x (g x)) :
    Json.Restores levels ofJson? v.toJson (v.mapNumbers g) :=
  ⟨(reread_plain v h hn).1, fun _ => (reread_plain v h hn).2⟩

theorem restores_items {levels : Nat} {vs : List Value} (h : ∀ v ∈ vs, v.Plain)
    (hn : ∀ x ∈ numbersItems vs, RereadAs x (g x)) :
    Json.Restores levels (Json.list? ofJson?) (.array (toJsonItems vs)) (mapItems g vs) := by
  obtain ⟨hprintable, hread⟩ := reread_items vs h hn
  refine ⟨hprintable, fun _ => ?_⟩
  rw [← hread]
  show (Json.rereadAll (toJsonItems vs)).mapM ofJson? = _
  induction Json.rereadAll (toJsonItems vs) with
  | nil => rfl
  | cons j js ih =>
    rw [List.mapM_cons, ih, ofJsonItems?]
    cases ofJson? j with
    | none => rfl
    | some v => cases ofJsonItems? js <;> rfl

theorem restores_fields {levels : Nat} {fs : Dict Value} (h : (object fs).Plain)
    (hn : ∀ x ∈ numbersFields fs, RereadAs x (g x)) :
    Json.Restores levels (Json.dict? ofJson?) (object fs).toJson (mapFields g fs) := by
  cases h with
  | object hnodup hfields =>
    obtain ⟨hprintable, hread⟩ := reread_fields fs hfields hn
    refine ⟨hprintable, fun _ => ?_⟩
    have hmembers (ms : List (String × Json)) :
        ms.mapM (fun m => (ofJson? m.2).map (m.1, ·)) = ofJsonMembers? ms := by
      induction ms with
      | nil => rfl
      | cons m ms ih =>
        rw [List.mapM_cons, ih, ofJsonMembers?]
        cases ofJson? m.2 with
        | none => rfl
        | some v => cases ofJsonMembers? ms <;> rfl
    show ((Json.rereadMembers (toJsonFields fs)).mapM
      fun m => (ofJson? m.2).map (m.1, ·)).map Dict.ofList = _
    rw [hmembers, hread, Option.map_some, Dict.ofList_of_nodup]
    rwa [keys_mapFields]

end

/-!
## What comes of the text of a value

Every value has a text, and all but those that nest too deep can be read from theirs. What is read
is of the same kind, with two exceptions: missing data comes back as null, and so does a number
without an end. Whole numbers come back as they were.
-/

open Decimal (integer? isFinite)

mutual

/-- How deep lists and objects nest in a value. -/
def depth : Value → Nat
  | array items => depthItems items + 1
  | object fields => depthFields fields + 1
  | undefined | null | bool _ | number _ | string _ => 0

/-- How deep the deepest item nests. -/
def depthItems : List Value → Nat
  | [] => 0
  | v :: vs => max (depth v) (depthItems vs)

def depthFields : List (String × Value) → Nat
  | [] => 0
  | (_, v) :: fs => max (depth v) (depthFields fs)

end

theorem depth_ofNumber (x : Float) : (Json.ofNumber x).depth = 0 := by
  obtain ⟨n, -, -, hjson⟩ | ⟨-, hjson⟩ | ⟨-, hjson, -⟩ := Json.ofNumber_cases x
  all_goals rw [hjson]; rfl

mutual

/-- The document that a value is written as nests as deep as the value. -/
theorem depth_toJson : (v : Value) → v.toJson.depth = v.depth
  | undefined | null | bool _ | string _ => rfl
  | number x => depth_ofNumber x
  | array items => congrArg (· + 1) (depth_toJsonItems items)
  | object fields => congrArg (· + 1) (depth_toJsonFields fields)

theorem depth_toJsonItems : (vs : List Value) → Json.depthAll (toJsonItems vs) = depthItems vs
  | [] => rfl
  | v :: vs => congrArg₂ max (depth_toJson v) (depth_toJsonItems vs)

theorem depth_toJsonFields : (fs : List (String × Value)) →
    Json.depthMembers (toJsonFields fs) = depthFields fs
  | [] => rfl
  | (_, v) :: fs => congrArg₂ max (depth_toJson v) (depth_toJsonFields fs)

end

/-! ## Whole numbers -/

/-- A whole number is read as the one that is made of it. -/
theorem rereadAs_ofInt {x : Float} {n : Int} (h : integer? x = some n)
    (hn : n.natAbs < 9000000000000000) : RereadAs x (Float.ofInt n) := by
  have hnumber : (number x).toJson = .int n := by
    rw [toJson, Json.ofNumber, h]
    exact if_pos hn
  have hparse := Json.parse_text (j := .int n) ⟨by omega, by omega⟩
  unfold RereadAs parse? jsonText
  rw [hnumber, hparse]
  rfl

/-- The whole number that a number is equal to, as a number again; others are left as they are. -/
def settled (x : Float) : Float := ((integer? x).map Float.ofInt).getD x

theorem settled_beq {x : Float} {n : Int} (h : integer? x = some n)
    (hn : n.natAbs < 9000000000000000) : (settled x == x) = true := by
  rw [settled, h]
  exact Decimal.ofInt_beq h (Nat.lt_trans hn (by decide))

/-- A value with whole numbers and without missing data is read from its text, if it does not nest
too deep. -/
theorem parse?_jsonText_of_whole {v : Value} (h : v.Plain) (hdepth : v.depth ≤ 127)
    (hn : ∀ x ∈ v.numbers, ∃ n, integer? x = some n ∧ n.natAbs < 9000000000000000) :
    parse? v.jsonText = some (v.mapNumbers settled) := by
  have hread : ∀ x ∈ v.numbers, RereadAs x (settled x) := fun x hx => by
    obtain ⟨n, hinteger, hlt⟩ := hn x hx
    rw [settled, hinteger]
    exact rereadAs_ofInt hinteger hlt
  obtain ⟨hprintable, hvalue⟩ := reread_plain v h hread
  unfold parse? jsonText
  rw [Json.parse_text hprintable, Json.readWithin_eq_reread (depth_toJson v ▸ hdepth)]
  exact hvalue

/-! ## All values -/

/-- A value whose text can be read, up to so many levels. -/
def Readable (v : Value) : Prop :=
  v.toJson.Printable ∧ ∀ limit, (ofJson? (v.toJson.readWithin limit)).isSome ↔ v.depth ≤ limit

theorem readable_number (x : Float) : (number x).Readable := by
  unfold Readable
  show (Json.ofNumber x).Printable ∧ ∀ limit, _ ↔ 0 ≤ limit
  obtain ⟨n, -, hn, hjson⟩ | ⟨-, hjson⟩ | ⟨-, hjson, y, hread⟩ := Json.ofNumber_cases x
  · rw [toJson, hjson]
    exact ⟨⟨by omega, by omega⟩, fun limit => by simp [Json.readWithin, ofJson?]⟩
  · rw [toJson, hjson]
    exact ⟨True.intro, fun limit => by simp [Json.readWithin, ofJson?]⟩
  · rw [toJson, hjson]
    refine ⟨⟨_, hread⟩, fun limit => ?_⟩
    rw [Json.readWithin, Json.rereadFloat, hread]
    simp [ofJson?]

mutual

theorem readable : (v : Value) → v.Readable
  | undefined | null | bool _ | string _ =>
    ⟨True.intro, fun limit => iff_of_true rfl (Nat.zero_le limit)⟩
  | number x => readable_number x
  | array items => by
    obtain ⟨hprintable, hread⟩ := readable_items items
    refine ⟨hprintable, fun limit => ?_⟩
    rw [toJson, Json.readWithin, depth]
    split
    · simp [ofJson?]
      omega
    · rw [ofJson?, Option.isSome_map, hread]
      omega
  | object fields => by
    obtain ⟨hprintable, hread⟩ := readable_fields fields
    refine ⟨hprintable, fun limit => ?_⟩
    rw [toJson, Json.readWithin, depth]
    split
    · simp [ofJson?]
      omega
    · rw [ofJson?, Option.isSome_map, hread]
      omega

theorem readable_items : (vs : List Value) → Json.PrintableAll (toJsonItems vs) ∧ ∀ limit,
    (ofJsonItems? (Json.readAllWithin limit (toJsonItems vs))).isSome ↔ depthItems vs ≤ limit
  | [] => ⟨True.intro, fun limit => iff_of_true rfl (Nat.zero_le limit)⟩
  | v :: vs => by
    obtain ⟨hfirst, hread⟩ := readable v
    obtain ⟨hrest, hread'⟩ := readable_items vs
    refine ⟨⟨hfirst, hrest⟩, fun limit => ?_⟩
    rw [toJsonItems, Json.readAllWithin, ofJsonItems?, depthItems, Nat.max_le, ← hread, ← hread']
    cases ofJson? (v.toJson.readWithin limit) with
    | none => simp
    | some w => simp

theorem readable_fields : (fs : List (String × Value)) → Json.PrintableMembers (toJsonFields fs) ∧
    ∀ limit, (ofJsonMembers? (Json.readMembersWithin limit (toJsonFields fs))).isSome ↔
      depthFields fs ≤ limit
  | [] => ⟨True.intro, fun limit => iff_of_true rfl (Nat.zero_le limit)⟩
  | (k, v) :: fs => by
    obtain ⟨hfirst, hread⟩ := readable v
    obtain ⟨hrest, hread'⟩ := readable_fields fs
    refine ⟨⟨hfirst, hrest⟩, fun limit => ?_⟩
    rw [toJsonFields, Json.readMembersWithin, ofJsonMembers?, depthFields, Nat.max_le,
      ← hread, ← hread']
    cases ofJson? (v.toJson.readWithin limit) with
    | none => simp
    | some w => simp

end

theorem parse?_jsonText (v : Value) : parse? v.jsonText = ofJson? (v.toJson.readWithin 127) := by
  unfold parse? jsonText
  rw [Json.parse_text v.readable.1]
  rfl

/-- A value can be read from its text just if it does not nest too deep. -/
theorem isSome_parse?_jsonText (v : Value) : (parse? v.jsonText).isSome ↔ v.depth ≤ 127 := by
  rw [parse?_jsonText]
  exact v.readable.2 127

end Value

end Archipelago
