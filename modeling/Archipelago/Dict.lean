/-! # Maps that remember the order of insertion -/

namespace Archipelago

universe u v

/-- Entries in the order in which they have come. No key stands twice if entries are put in by
`insert`. -/
abbrev Dict (α : Type u) := List (String × α)

namespace Dict

variable {α : Type u} {β : Type v}

/-- The value of the first entry with a key. -/
def get? : Dict α → String → Option α
  | [], _ => none
  | (k, v) :: d, name => if k = name then some v else get? d name

/-- Is there an entry with this key? -/
def contains (d : Dict α) (name : String) : Bool := (get? d name).isSome

/-- A name already there keeps its place. -/
def insert : Dict α → String → α → Dict α
  | [], name, x => [(name, x)]
  | (k, v) :: d, name, x => if k = name then (k, x) :: d else (k, v) :: insert d name x

/-- All entries but those with a key. -/
def erase (d : Dict α) (name : String) : Dict α := d.filter (·.1 ≠ name)

/-- The keys, in order. -/
def keys (d : Dict α) : List String := d.map (·.1)

/-- The same keys with other values. -/
def mapValues (f : α → β) (d : Dict α) : Dict β := d.map fun e => (e.1, f e.2)

/-- Inserts every entry of `e`, first to last. -/
def merge (d e : Dict α) : Dict α := e.foldl (fun d x => insert d x.1 x.2) d

/-- Entries one by one: a key that comes again keeps its place and gets the later value. -/
def ofList (entries : List (String × α)) : Dict α := merge [] entries

@[simp] theorem get?_nil (name : String) : get? ([] : Dict α) name = none := rfl

theorem mem_keys_of_get? {d : Dict α} {name : String} {x : α} (h : get? d name = some x) :
    name ∈ keys d := by
  induction d with
  | nil => simp at h
  | cons e d ih =>
    obtain ⟨k, v⟩ := e
    unfold get? at h
    by_cases hk : k = name
    · simp [hk, keys]
    · have := ih (by simpa [hk] using h)
      simpa [keys, Ne.symm hk] using this

theorem get?_insert (d : Dict α) (name other : String) (x : α) :
    get? (insert d name x) other = if name = other then some x else get? d other := by
  induction d with
  | nil => rfl
  | cons e d ih =>
    obtain ⟨k, v⟩ := e
    unfold insert
    by_cases h : k = name
    · subst h; simp only; unfold get?; by_cases h : k = other <;> simp [h]
    · simp only [if_neg h]; unfold get?; rw [ih]; grind

@[simp] theorem get?_insert_self (d : Dict α) (name : String) (x : α) :
    get? (insert d name x) name = some x := by simp [get?_insert]

theorem mem_keys_insert {d : Dict α} {name other : String} {x : α} :
    other ∈ keys (insert d name x) ↔ other = name ∨ other ∈ keys d := by
  induction d with
  | nil => simp [insert, keys]
  | cons e d ih =>
    obtain ⟨k, v⟩ := e
    unfold insert
    by_cases h : k = name
    · simp_all [keys]
    · simp_all [keys]; grind

theorem keys_insert_of_mem {d : Dict α} {name : String} {x : α} (h : name ∈ keys d) :
    keys (insert d name x) = keys d := by
  induction d with
  | nil => simp [keys] at h
  | cons e d ih =>
    obtain ⟨k, v⟩ := e
    unfold insert
    by_cases hk : k = name
    · simp [hk, keys]
    · have : name ∈ keys d := by simpa [keys, Ne.symm hk] using h
      simpa [hk, keys] using ih this

end Dict

/-- Appends what is not there yet. -/
def addNew (names : List String) (name : String) : List String :=
  if name ∈ names then names else names ++ [name]

/-- Names that are not there yet go to the end, one after the other. -/
def addAllNew (names more : List String) : List String := more.foldl addNew names

theorem mem_addNew {names : List String} {name other : String} :
    other ∈ addNew names name ↔ other ∈ names ∨ other = name := by
  unfold addNew
  split
  · rename_i h
    constructor
    · exact .inl
    · rintro (ho | rfl)
      · exact ho
      · exact h
  · simp

theorem mem_addAllNew {names more : List String} {other : String} :
    other ∈ addAllNew names more ↔ other ∈ names ∨ other ∈ more := by
  induction more generalizing names with
  | nil => simp [addAllNew]
  | cons name more ih =>
    have h : addAllNew names (name :: more) = addAllNew (addNew names name) more := rfl
    rw [h, ih, mem_addNew, List.mem_cons, or_assoc]

end Archipelago
