import Archipelago.Json.Record
import Archipelago.Proofs.Basics
import Archipelago.Proofs.Json.Reading
import Mathlib.Algebra.Group.Nat.Defs

/-!
# Records that are read back

What is written as a document is read back if its parts are. A record is opened by the names of its
members, those that are left out included.
-/

namespace Archipelago.Json

/-- Reading the document gives `a`, after its numbers have been read from their texts, if it nests
less than so many levels. -/
structure Restores {α : Type} (levels : Nat) (read : Json → Option α) (j : Json) (a : α) :
    Prop where
  printable : j.Printable
  read_reread : j.depth < levels → read j.reread = some a

variable {α : Type} {read : Json → Option α} {levels : Nat}

theorem Restores.mono {j : Json} {a : α} {more : Nat} (h : Restores more read j a)
    (hle : levels ≤ more) : Restores levels read j a :=
  ⟨h.printable, fun hdepth => h.read_reread (Nat.lt_of_lt_of_le hdepth hle)⟩

theorem restores_string (s : String) : Restores levels string? (.string s) s :=
  ⟨True.intro, fun _ => rfl⟩

theorem restores_bool (b : Bool) : Restores levels bool? (.bool b) b := ⟨True.intro, fun _ => rfl⟩

/-- A whole number of 64 bits is read back. -/
theorem restores_nat64 {n : Nat} (h : n < 2 ^ 64) : Restores levels nat64? (.int n) n where
  printable := ⟨by omega, by omega⟩
  read_reread _ := by
    show (if 0 ≤ (n : Int) && (n : Int) < 0x10000000000000000 then some (n : Int).toNat
      else none) = _
    rw [if_pos, Int.toNat_natCast]
    simp only [Bool.and_eq_true, decide_eq_true_eq]
    omega

theorem depth_lt_object {ms : List (String × Json)} {m : String × Json} (h : m ∈ ms) :
    m.2.depth < (object ms).depth := Nat.lt_succ_of_le (depth_le_depthMembers h)

theorem restores_nil : Restores levels (list? read) (.array []) [] := ⟨True.intro, fun _ => rfl⟩

/-- A list is read back item by item. -/
theorem Restores.cons {j : Json} {js : List Json} {a : α} {as : List α}
    (h : Restores levels read j a) (hs : Restores (levels + 1) (list? read) (.array js) as) :
    Restores (levels + 1) (list? read) (.array (j :: js)) (a :: as) where
  printable := ⟨h.printable, hs.printable⟩
  read_reread hdepth := by
    rw [depth, depthAll] at hdepth
    have hfirst := h.read_reread (by omega)
    have hrest : (rereadAll js).mapM read = some as := hs.read_reread (by rw [depth]; omega)
    show (rereadAll (j :: js)).mapM read = _
    rw [rereadAll, List.mapM_cons, hfirst, hrest]
    rfl

theorem Restores.list {β : Type} {encode : β → Json} {f : β → α} {bs : List β}
    (h : ∀ b ∈ bs, Restores levels read (encode b) (f b)) :
    Restores (levels + 1) (list? read) (.array (bs.map encode)) (bs.map f) := by
  induction bs with
  | nil => exact restores_nil
  | cons b bs ih =>
    exact (h b List.mem_cons_self).cons (ih fun b hb => h b (List.mem_cons_of_mem _ hb))

theorem restores_strings (ss : List String) :
    Restores levels (list? string?) (.array (ss.map .string)) ss := by
  have h : Restores (levels + 1) (list? string?) (.array (ss.map .string)) (ss.map id) :=
    .list fun s _ => restores_string s
  rw [List.map_id] at h
  exact h.mono (Nat.le_succ levels)

theorem printable_variant {name : String} {j : Json} (h : j.Printable) :
    (variant name j).Printable := ⟨h, True.intro⟩

theorem depth_lt_variant (name : String) (j : Json) : j.depth < (variant name j).depth :=
  depth_lt_object (m := (name, j)) List.mem_cons_self

theorem printable_object {ms : List (String × Json)} (h : ∀ m ∈ ms, m.2.Printable) :
    (object ms).Printable := printableMembers_iff.2 h

/-! ## Records -/

theorem get?_rereadMembers (ms : Dict Json) (name : String) :
    Dict.get? (rereadMembers ms) name = (Dict.get? ms name).map reread := by
  rw [rereadMembers_eq]
  exact Dict.get?_mapValues reread ms name

theorem keys_rereadMembers (ms : Dict Json) : Dict.keys (rereadMembers ms) = Dict.keys ms := by
  rw [rereadMembers_eq, Dict.keys, Dict.keys, List.map_map]
  rfl

/-- The members that are not left out. -/
def present (members : Dict (Option Json)) : Dict Json :=
  members.filterMap fun m => m.2.map (m.1, ·)

theorem keys_present_sublist (members : Dict (Option Json)) :
    (Dict.keys (present members)).Sublist (Dict.keys members) := by
  induction members with
  | nil => exact .slnil
  | cons m members ih =>
    obtain ⟨k, j⟩ := m
    cases j with
    | none => exact ih.cons k
    | some j => exact ih.cons_cons k

/-- A field that is not there is not written. -/
theorem get?_present {members : Dict (Option Json)} (h : (Dict.keys members).Nodup)
    (name : String) :
    Dict.get? (present members) name = (Dict.get? members name).bind id := by
  induction members with
  | nil => rfl
  | cons m members ih =>
    obtain ⟨k, j⟩ := m
    obtain ⟨hk, hrest⟩ := List.nodup_cons.1 h
    rw [Dict.get?]
    cases j with
    | none =>
      show Dict.get? (present members) name = _
      rw [ih hrest]
      split
      · rename_i he
        rw [Dict.get?_eq_none_iff.2 (he ▸ hk)]
        rfl
      · rfl
    | some j =>
      show Dict.get? ((k, j) :: present members) name = _
      rw [Dict.get?, ih hrest]
      split
      · rfl
      · rfl

theorem depth_lt_fields {members : Dict (Option Json)} {name : String} {j : Json}
    (h : (name, some j) ∈ members) : j.depth < (fields members).depth :=
  depth_lt_object (m := (name, j)) (List.mem_filterMap.2 ⟨_, h, rfl⟩)

/-- Each member that is not left out can be read from its text. -/
def PrintableFields : Dict (Option Json) → Prop
  | [] => True
  | (_, j) :: members => (∀ i ∈ j, i.Printable) ∧ PrintableFields members

theorem printable_some {j : Json} (h : j.Printable) : ∀ i ∈ some j, i.Printable := by
  rintro i ⟨⟩
  exact h

/-- An object is printable if its fields are. -/
theorem printable_fields {members : Dict (Option Json)} (h : PrintableFields members) :
    (fields members).Printable := by
  induction members with
  | nil => exact True.intro
  | cons m members ih =>
    obtain ⟨k, j⟩ := m
    obtain ⟨hj, hrest⟩ := h
    cases j with
    | none => exact ih hrest
    | some j => exact ⟨hj j rfl, ih hrest⟩

namespace Record

/-- A record with these members, their numbers as they are read. Each of them nests less than
so many levels. -/
structure Holds (levels : Nat) (r : Record) (members : Dict (Option Json)) : Prop where
  get? : ∀ name, Dict.get? r.members name = ((Dict.get? members name).bind id).map reread
  depth_lt : ∀ name j, Dict.get? members name = some (some j) → j.depth < levels

end Record

/-- A record whose names are all different can be opened. -/
theorem exists_record (members : Dict (Option Json)) (h : (Dict.keys members).Nodup)
    (hdepth : (fields members).depth < levels) :
    ∃ r, record? (Dict.keys members) (fields members).reread = some r ∧ r.Holds levels members := by
  have hkeys := keys_rereadMembers (present members)
  have hsublist := keys_present_sublist members
  have hknown : (rereadMembers (present members)).filter
      (fun m => (Dict.keys members).contains m.1) = rereadMembers (present members) := by
    refine List.filter_eq_self.2 fun m hm => ?_
    have hmem : m.1 ∈ Dict.keys (rereadMembers (present members)) := List.mem_map_of_mem hm
    rw [hkeys] at hmem
    exact List.contains_iff_mem.2 (hsublist.subset hmem)
  refine ⟨⟨false, rereadMembers (present members)⟩, ?_, fun name => ?_, fun name j hj => ?_⟩
  · show record? _ (.object (rereadMembers (present members))) = _
    unfold record?
    dsimp only
    rw [hknown, if_pos]
    rw [hkeys]
    exact h.sublist hsublist
  · rw [get?_rereadMembers, get?_present h]
  · exact Nat.lt_trans (depth_lt_fields (Dict.mem_of_get? hj)) hdepth

namespace Record.Holds

variable {r : Record} {members : Dict (Option Json)} {name : String} {a : α} {o : Option α}

theorem get?_eq (h : r.Holds levels members) {j : Option Json}
    (hm : Dict.get? members name = some j) :
    Dict.get? r.members name = j.map reread := by
  rw [h.get?, hm]
  rfl

/-- A field that is required is read back. -/
theorem required (h : r.Holds levels members) {j : Json}
    (hm : Dict.get? members name = some (some j))
    (hj : Restores levels read j a) : r.required name read = some a := by
  rw [Record.required, h.get?_eq hm]
  exact hj.read_reread (h.depth_lt name j hm)

/-- A field that is left out is read back as its default. -/
theorem withDefault (h : r.Holds levels members) {j : Option Json}
    (hm : Dict.get? members name = some j)
    {default : α} (hnone : j = none → a = default) (hj : ∀ i ∈ j, Restores levels read i a) :
    r.withDefault name default read = some a := by
  rw [Record.withDefault, h.get?_eq hm]
  cases j with
  | none => rw [hnone rfl]; rfl
  | some i => exact (hj i rfl).read_reread (h.depth_lt name i hm)

/-- A field that is null or left out is read back as nothing. -/
theorem optionalDefault (h : r.Holds levels members) {encode : α → Json}
    (hm : Dict.get? members name = some (o.map encode))
    (hj : ∀ a ∈ o, Restores levels read (encode a) a ∧ (encode a).reread ≠ .null) :
    r.optionalDefault name read = some o := by
  rw [Record.optionalDefault, h.get?_eq hm]
  cases o with
  | none => rfl
  | some a =>
    obtain ⟨hread, hnull⟩ := hj a rfl
    dsimp only [Option.map_some]
    split
    · rename_i he
      exact absurd (Option.some.inj he) hnull
    · rename_i he
      cases he
    · rename_i he
      rw [← Option.some.inj he, hread.read_reread (h.depth_lt name _ hm)]
      rfl

end Record.Holds

end Archipelago.Json
