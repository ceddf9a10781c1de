import Archipelago.Proofs.Dependency.Order
import Mathlib

/-!
# Cycles

A key depends on what it reads, and on what that depends on. The traversal that makes an order goes
into each key once and stops at one that is still underway, so it comes to an end exactly if no key
depends on itself. The search for the keys that do finds, whatever it takes first of the names that
wait, a name if and only if one of those that wait leads to it: what has been seen leads only to
what waits. And whatever is seen is followed once only, so no more names are ever looked at than the
lists of the graph hold.
-/

namespace Archipelago.Dependency.Graph

variable {g : Graph} {name dep : String}

/-- One key reads another one. -/
def Reads (g : Graph) (name dep : String) : Prop := dep ∈ g.reads name

/-- One key reads another one, at once or by way of other keys. -/
def DependsOn (g : Graph) : String → String → Prop := Relation.TransGen g.Reads

theorem mem_keys_of_reads (h : g.Reads name dep) : name ∈ Dict.keys g := by
  cases hget : Dict.get? g name with
  | none =>
    unfold Reads reads at h
    rw [hget] at h
    cases h
  | some deps => exact Dict.mem_keys_of_get? hget

theorem mem_keys_of_dependsOn (h : g.DependsOn name dep) : name ∈ Dict.keys g := by
  obtain ⟨next, hread, -⟩ := Relation.TransGen.head'_iff.1 h
  exact mem_keys_of_reads hread

/-! ## What has an order -/

theorem IsOrder.idxOf_lt {order : List String} (h : g.IsOrder order) (hd : g.DependsOn name dep) :
    order.idxOf dep < order.idxOf name := by
  induction hd using Relation.TransGen.head_induction_on with
  | single hread => exact step hread
  | head hread _ ih => exact Nat.lt_trans ih (step hread)
where
  step {name dep : String} (hread : g.Reads name dep) : order.idxOf dep < order.idxOf name := by
    obtain ⟨before, after, rfl⟩ := List.append_of_mem ((h.mem_iff name).2 (mem_keys_of_reads hread))
    have hnew : name ∉ before := fun hm =>
      (List.nodup_append.1 h.nodup).2.2 name hm name List.mem_cons_self rfl
    have hdep : dep ∈ before := h.sorted before name after rfl dep hread
    rw [List.idxOf_append_of_mem hdep, List.idxOf_append_of_notMem hnew, List.idxOf_cons_self]
    exact Nat.lt_add_right _ (List.idxOf_lt_length_of_mem hdep)

/-- In what is in order no key depends on itself. -/
theorem IsOrder.not_dependsOn_self {order : List String} (h : g.IsOrder order) (name : String) :
    ¬g.DependsOn name name := fun hd => Nat.lt_irrefl _ (h.idxOf_lt hd)

/-! ## What has none -/

/-- Visits are under way, and this one is the next: all those on the path wait for it. -/
structure Underway (g : Graph) (room : Nat) (path : List String) (name : String) : Prop where
  keys : ∀ other ∈ name :: path, other ∈ Dict.keys g
  nodup : path.Nodup
  waits : ∀ other ∈ path, g.DependsOn other name
  room : (Dict.keys g).length ≤ path.length + room

namespace Underway

variable {room : Nat} {path : List String}

theorem first (h : name ∈ Dict.keys g) : g.Underway g.length [] name where
  keys other ho := List.mem_singleton.1 ho ▸ h
  nodup := List.nodup_nil
  waits _ ho := nomatch ho
  room := Nat.le_of_eq (by rw [Dict.keys, List.length_map, List.length_nil, Nat.zero_add])

/-- A key that is visited makes way for what it reads. -/
theorem read (h : g.Underway (room + 1) path name) (hnew : name ∉ path) (hread : g.Reads name dep) :
    g.Underway room (name :: path) dep where
  keys := List.forall_mem_cons.2 ⟨mem_keys_of_mem_reads hread, h.keys⟩
  nodup := List.nodup_cons.2 ⟨hnew, h.nodup⟩
  waits := List.forall_mem_cons.2 ⟨.single hread, fun other ho => (h.waits other ho).tail hread⟩
  room := Nat.le_trans h.room (by rw [List.length_cons]; omega)

/-- There is room for every key that is not on the path. -/
theorem pos (h : g.Underway room path name) (hnew : name ∉ path) : room ≠ 0 := by
  rintro rfl
  have hlen := ((List.nodup_cons.2 ⟨hnew, h.nodup⟩).subperm h.keys).length_le
  have := h.room
  rw [List.length_cons] at hlen
  omega

end Underway

theorem exists_of_visitAll_error {f : String → List String → Except String (List String)}
    {e : String} {names order : List String} (h : visitAll f names order = .error e) :
    ∃ name ∈ names, ∃ order, f name order = .error e := by
  induction names generalizing order with
  | nil => cases h
  | cons name names ih =>
    cases hv : f name order with
    | error e' =>
      obtain rfl : e' = e := by simpa [visitAll, hv, bind, Except.bind] using h
      exact ⟨name, List.mem_cons_self, order, hv⟩
    | ok order' =>
      have hrest : visitAll f names order' = .error e := by
        simpa [visitAll, hv, bind, Except.bind] using h
      obtain ⟨other, ho, hother⟩ := ih hrest
      exact ⟨other, List.mem_cons_of_mem _ ho, hother⟩

/-- A visit fails only at a key that depends on itself. -/
theorem dependsOn_self_of_visit {e : String} (room : Nat) :
    ∀ {path : List String} {name : String} {order : List String}, g.Underway room path name →
      g.visit room path name order = .error e → g.DependsOn e e := by
  induction room with
  | zero =>
    intro path name order h hvisit
    unfold visit at hvisit
    split at hvisit
    · cases hvisit
    · split at hvisit
      · rename_i hpath
        obtain rfl := Except.error.inj hvisit
        exact h.waits _ hpath
      · rename_i hnew
        exact absurd rfl (h.pos hnew)
  | succ room ih =>
    intro path name order h hvisit
    unfold visit at hvisit
    split at hvisit
    · cases hvisit
    · split at hvisit
      · rename_i hpath
        obtain rfl := Except.error.inj hvisit
        exact h.waits _ hpath
      · rename_i hnew
        cases hreads : visitAll (g.visit room (name :: path)) (g.reads name) order with
        | ok order' => simp [hreads, bind, Except.bind] at hvisit
        | error e' =>
          obtain rfl : e' = e := by simpa [hreads, bind, Except.bind] using hvisit
          obtain ⟨dep, hdep, order', hfail⟩ := exists_of_visitAll_error hreads
          exact ih (h.read hnew hdep) hfail

/-- If there is no order, a key is named that depends on itself. -/
theorem dependsOn_self_of_order {e : String} (h : g.order = .error e) : g.DependsOn e e := by
  obtain ⟨name, hname, order, hvisit⟩ := exists_of_visitAll_error h
  exact dependsOn_self_of_visit g.length (.first hname) hvisit

theorem exists_order_iff : (∃ order, g.order = .ok order) ↔ ∀ name, ¬g.DependsOn name name := by
  constructor
  · rintro ⟨order, horder⟩
    exact (isOrder_of_order horder).not_dependsOn_self
  · intro h
    cases horder : g.order with
    | ok order => exact ⟨order, rfl⟩
    | error e => exact absurd (dependsOn_self_of_order horder) (h e)

/-- There is an order if and only if no key depends on itself. It has every key once and each of
them behind all the keys that it reads; if there is none, a key is named that depends on itself. -/
theorem order_topological (hg : (Dict.keys g).Nodup) :
    ((∃ order, g.order = .ok order) ↔ ∀ name, ¬g.DependsOn name name) ∧
    (∀ order, g.order = .ok order → order.Perm (Dict.keys g) ∧ g.Sorted order) ∧
    ∀ name, g.order = .error name → name ∈ Dict.keys g ∧ g.DependsOn name name := by
  refine ⟨exists_order_iff, fun order horder => ?_, fun name horder => ?_⟩
  · have h := isOrder_of_order horder
    exact ⟨(List.perm_ext_iff_of_nodup h.nodup hg).2 h.mem_iff, h.sorted⟩
  · have h := dependsOn_self_of_order horder
    exact ⟨mem_keys_of_dependsOn h, h⟩

/-- Two keys that read a third one, and a fourth that reads both. -/
def shared : Graph := [("d", ["b", "c"]), ("b", ["a"]), ("c", ["a", "plain"]), ("a", ["plain"])]

/-- The third key comes first, and the fourth one last. -/
theorem order_topological_shared : (Dict.keys shared).Nodup ∧
    shared.order = .ok ["a", "b", "c", "d"] ∧ shared.Sorted ["a", "b", "c", "d"] ∧
    ∀ name, ¬shared.DependsOn name name := by
  have hkeys : (Dict.keys shared).Nodup := by decide
  have horder : shared.order = .ok ["a", "b", "c", "d"] := by decide
  obtain ⟨hiff, hok, -⟩ := order_topological hkeys
  exact ⟨hkeys, horder, (hok _ horder).2, hiff.1 ⟨_, horder⟩⟩

/-! ## What waits -/

variable {goal : String} {seen waiting : List String}

/-- Some of the names lead to the goal. -/
def Leads (g : Graph) (goal : String) (names : List String) : Prop :=
  ∃ name ∈ names, Relation.ReflTransGen g.Reads name goal

theorem not_leads_nil (g : Graph) (goal : String) : ¬g.Leads goal [] := nofun

theorem leads_cons : g.Leads goal (name :: waiting) ↔
    Relation.ReflTransGen g.Reads name goal ∨ g.Leads goal waiting := by
  simp [Leads]

theorem leads_append {more : List String} :
    g.Leads goal (more ++ waiting) ↔ g.Leads goal more ∨ g.Leads goal waiting := by
  simp [Leads, or_and_right, exists_or]

/-- These are the names in the list of a key, in any order and number. -/
def ListOf (g : Graph) (name : String) (deps : List String) : Prop :=
  ∀ dep, dep ∈ deps ↔ dep ∈ (Dict.get? g name).getD []

theorem ListOf.mem {deps : List String} {dep : String} (h : g.ListOf name deps)
    (hread : g.Reads name dep) : dep ∈ deps := (h dep).2 (List.mem_filter.1 hread).1

/-- What a name reads leads to a key if the name depends on it. -/
theorem ListOf.leads_iff {deps : List String} (h : g.ListOf name deps)
    (hgoal : goal ∈ Dict.keys g) : g.Leads goal deps ↔ g.DependsOn name goal := by
  constructor
  · rintro ⟨dep, hdep, hlead⟩
    have hkey : dep ∈ Dict.keys g := by
      rcases Relation.ReflTransGen.cases_head hlead with rfl | ⟨next, hread, -⟩
      · exact hgoal
      · exact mem_keys_of_reads hread
    have hread : g.Reads name dep :=
      List.mem_filter.2 ⟨(h dep).1 hdep, Dict.contains_iff.2 hkey⟩
    exact .head' hread hlead
  · intro hdepends
    obtain ⟨dep, hread, hlead⟩ := Relation.TransGen.head'_iff.1 hdepends
    exact ⟨dep, h.mem hread, hlead⟩

/-- The goal has not been seen, and what has been seen reads only what has been seen or waits. -/
structure Covers (g : Graph) (goal : String) (seen waiting : List String) : Prop where
  absent : goal ∉ seen
  closed : ∀ name ∈ seen, ∀ dep, g.Reads name dep → dep ∈ seen ∨ dep ∈ waiting

theorem covers_nil (g : Graph) (goal : String) (waiting : List String) :
    g.Covers goal [] waiting := ⟨List.not_mem_nil, nofun⟩

/-- A way from what has been seen to the goal leads by one that waits. -/
theorem Covers.leads (h : g.Covers goal seen waiting) (hname : name ∈ seen)
    (hlead : Relation.ReflTransGen g.Reads name goal) :
    ∃ other ∈ waiting, other ∉ seen ∧ Relation.ReflTransGen g.Reads other goal := by
  induction hlead using Relation.ReflTransGen.head_induction_on with
  | refl => exact absurd hname h.absent
  | @head name next hread hrest ih =>
    by_cases hnext : next ∈ seen
    · exact ih hnext
    · exact ⟨next, (h.closed name hname next hread).resolve_left hnext, hnext, hrest⟩

/-- A name that has been seen can be left out. -/
theorem Covers.skip (h : g.Covers goal seen (name :: waiting)) (hname : name ∈ seen) :
    g.Covers goal seen waiting ∧ (g.Leads goal (name :: waiting) ↔ g.Leads goal waiting) := by
  refine ⟨⟨h.absent, fun other ho dep hread => ?_⟩, ?_⟩
  · rcases h.closed other ho dep hread with hdep | hdep
    · exact .inl hdep
    · obtain rfl | hdep := List.mem_cons.1 hdep
      · exact .inl hname
      · exact .inr hdep
  · rw [leads_cons]
    refine or_iff_right_of_imp fun hlead => ?_
    obtain ⟨next, hnext, hnew, hrest⟩ := h.leads hname hlead
    obtain rfl | hnext := List.mem_cons.1 hnext
    · exact absurd hname hnew
    · exact ⟨next, hnext, hrest⟩

/-- A name that is not the goal makes way for all that it reads. -/
theorem Covers.expand (h : g.Covers goal seen (name :: waiting)) (hgoal : goal ∈ Dict.keys g)
    (hne : name ≠ goal) {deps : List String} (hdeps : g.ListOf name deps) :
    g.Covers goal (name :: seen) (deps ++ waiting) ∧
      (g.Leads goal (name :: waiting) ↔ g.Leads goal (deps ++ waiting)) := by
  refine ⟨⟨fun hm => (List.mem_cons.1 hm).elim hne.symm h.absent, fun other ho dep hread => ?_⟩, ?_⟩
  · obtain rfl | ho := List.mem_cons.1 ho
    · exact .inr (List.mem_append_left _ (hdeps.mem hread))
    · rcases h.closed other ho dep hread with hdep | hdep
      · exact .inl (List.mem_cons_of_mem _ hdep)
      · obtain rfl | hdep := List.mem_cons.1 hdep
        · exact .inl List.mem_cons_self
        · exact .inr (List.mem_append_right _ hdep)
  · rw [leads_cons, leads_append, hdeps.leads_iff hgoal, Relation.reflTransGen_iff_eq_or_transGen,
      or_iff_right hne.symm]
    rfl

/-- A name that is no key need not be remembered. -/
theorem Covers.drop (h : g.Covers goal (name :: seen) waiting) (hname : name ∉ Dict.keys g) :
    g.Covers goal seen waiting := by
  refine ⟨fun hm => h.absent (List.mem_cons_of_mem _ hm), fun other ho dep hread => ?_⟩
  refine (h.closed other (List.mem_cons_of_mem _ ho) dep hread).imp_left fun hdep => ?_
  refine (List.mem_cons.1 hdep).resolve_left ?_
  rintro rfl
  exact hname (mem_keys_of_mem_reads hread)

/-! ## The names that depend on themselves -/

theorem reaches_iff (hgoal : goal ∈ Dict.keys g) (h : g.Covers goal seen waiting) :
    g.reaches goal seen waiting = true ↔ g.Leads goal waiting := by
  induction seen, waiting using reaches.induct g goal with
  | case1 seen =>
    rw [reaches]
    exact iff_of_false Bool.false_ne_true (not_leads_nil g goal)
  | case2 seen waiting =>
    rw [reaches, if_pos rfl]
    exact iff_of_true rfl (leads_cons.2 (.inl .refl))
  | case3 seen name waiting hne hseen ih =>
    obtain ⟨hcovers, hiff⟩ := h.skip hseen
    rw [reaches, if_neg hne, if_pos hseen, ih hcovers, hiff]
  | case4 seen name waiting hne hseen hget ih =>
    have hdeps : g.ListOf name [] := fun dep => by rw [hget]; rfl
    obtain ⟨hcovers, hiff⟩ := h.expand hgoal hne hdeps
    rw [reaches, if_neg hne, if_neg hseen, hget]
    dsimp only
    rw [ih (hcovers.drop (Dict.get?_eq_none_iff.1 hget)), hiff, List.nil_append]
  | case5 seen name waiting hne hseen deps hget ih =>
    have hdeps : g.ListOf name deps := fun dep => by rw [hget]; rfl
    obtain ⟨hcovers, hiff⟩ := h.expand hgoal hne hdeps
    rw [reaches, if_neg hne, if_neg hseen, hget]
    dsimp only
    rw [ih hcovers, hiff]

/-- The search finds a key from what it reads if the key depends on itself. -/
theorem reaches_self_iff (hgoal : goal ∈ Dict.keys g) :
    g.reaches goal [] ((Dict.get? g goal).getD []) = true ↔ g.DependsOn goal goal := by
  have hdeps : g.ListOf goal ((Dict.get? g goal).getD []) := fun dep => Iff.rfl
  rw [reaches_iff hgoal (covers_nil g goal _), hdeps.leads_iff hgoal]

theorem mem_cyclic_iff : name ∈ g.cyclic ↔ g.DependsOn name name := by
  rw [cyclic, List.mem_filter]
  constructor
  · rintro ⟨hkey, hreaches⟩
    exact (reaches_self_iff hkey).1 hreaches
  · intro h
    have hkey := mem_keys_of_dependsOn h
    exact ⟨hkey, (reaches_self_iff hkey).2 h⟩

theorem cyclic_ne_nil_iff : g.cyclic ≠ [] ↔ ∃ name, g.order = .error name := by
  constructor
  · intro h
    obtain ⟨name, hname⟩ := List.exists_mem_of_ne_nil _ h
    cases horder : g.order with
    | ok order => exact absurd (mem_cyclic_iff.1 hname) (exists_order_iff.1 ⟨order, horder⟩ name)
    | error e => exact ⟨e, rfl⟩
  · rintro ⟨name, horder⟩
    exact List.ne_nil_of_mem (mem_cyclic_iff.2 (dependsOn_self_of_order horder))

/-! ## The rounds of the search -/

/-- The search round by round. It looks at the name on top of the stack, and what that name reads
comes in its place, the last of it on top. Without a round left there is no answer. -/
def searchWithin (g : Graph) (goal : String) :
    (rounds : Nat) → (seen stack : List String) → Option Bool
  | 0, _, _ => none
  | _ + 1, _, [] => some false
  | rounds + 1, seen, name :: stack =>
    if name = goal then some true
    else if name ∈ seen then searchWithin g goal rounds seen stack
    else searchWithin g goal rounds (name :: seen) (((Dict.get? g name).getD []).reverse ++ stack)

/-- How many names are in the lists of the keys that have not been seen. -/
def unread (g : Graph) (seen : List String) : Nat :=
  ((g.filter (·.1 ∉ seen)).map (·.2.length)).sum

theorem unread_nil (g : Graph) : g.unread [] = (g.map (·.2.length)).sum := by
  unfold unread
  rw [List.filter_eq_self.2 fun e _ => decide_eq_true List.not_mem_nil]

theorem unread_cons (key : String) (deps : List String) (g : Graph) (seen : List String) :
    unread ((key, deps) :: g) seen = (if key ∈ seen then 0 else deps.length) + unread g seen := by
  unfold unread
  by_cases hkey : key ∈ seen
  · simp [hkey]
  · simp [hkey]

/-- The list of a key that is seen is not read again. -/
theorem unread_see (hnew : name ∉ seen) :
    ((Dict.get? g name).getD []).length + unread g (name :: seen) ≤ unread g seen := by
  induction g with
  | nil => exact Nat.le_refl _
  | cons e g ih =>
    obtain ⟨key, deps⟩ := e
    rw [unread_cons, unread_cons]
    by_cases hkey : key = name
    · subst hkey
      rw [Dict.get?, if_pos rfl, Option.getD_some, if_pos List.mem_cons_self, if_neg hnew]
      omega
    · rw [Dict.get?, if_neg hkey]
      by_cases hseen : key ∈ seen
      · rw [if_pos hseen, if_pos (List.mem_cons_of_mem _ hseen)]
        omega
      · rw [if_neg hseen, if_neg fun hm => (List.mem_cons.1 hm).elim hkey hseen]
        omega

/-- The search ends with an answer, and that is whether one of the names on the stack leads to the
goal. -/
theorem exists_searchWithin {rounds : Nat} {stack : List String} (hgoal : goal ∈ Dict.keys g)
    (h : g.Covers goal seen stack) (hrounds : stack.length + g.unread seen < rounds) :
    ∃ found, g.searchWithin goal rounds seen stack = some found ∧
      (found = true ↔ g.Leads goal stack) := by
  induction rounds generalizing seen stack with
  | zero => exact absurd hrounds (Nat.not_lt_zero _)
  | succ rounds ih =>
    cases stack with
    | nil => exact ⟨false, rfl, iff_of_false Bool.false_ne_true (not_leads_nil g goal)⟩
    | cons name stack =>
      rw [List.length_cons] at hrounds
      by_cases hname : name = goal
      · subst hname
        exact ⟨true, if_pos rfl, iff_of_true rfl (leads_cons.2 (.inl .refl))⟩
      rw [searchWithin, if_neg hname]
      by_cases hseen : name ∈ seen
      · obtain ⟨hcovers, hiff⟩ := h.skip hseen
        rw [if_pos hseen, hiff]
        exact ih hcovers (by omega)
      · have hdeps : g.ListOf name ((Dict.get? g name).getD []).reverse := fun dep =>
          List.mem_reverse
        obtain ⟨hcovers, hiff⟩ := h.expand hgoal hname hdeps
        have hunread := unread_see (g := g) hseen
        rw [if_neg hseen, hiff]
        refine ih hcovers ?_
        rw [List.length_append, List.length_reverse]
        omega

/-- From what a key reads the search ends after at most one round more than there are names to look
at, and it answers whether the key is among those that are on a cycle. -/
theorem searchWithin_self {deps : List String} (hget : Dict.get? g name = some deps) {rounds : Nat}
    (hrounds : deps.length + (g.map (·.2.length)).sum < rounds) :
    g.searchWithin name rounds [] deps.reverse = some (decide (name ∈ g.cyclic)) := by
  have hkey := Dict.mem_keys_of_get? hget
  have hdeps : g.ListOf name deps.reverse := fun dep => by
    rw [hget, Option.getD_some, List.mem_reverse]
  have hbound : deps.reverse.length + g.unread [] < rounds := by
    rwa [List.length_reverse, unread_nil]
  obtain ⟨found, hfound, hiff⟩ := exists_searchWithin hkey (covers_nil g name deps.reverse) hbound
  rw [hdeps.leads_iff hkey, ← mem_cyclic_iff] at hiff
  rw [hfound, Option.some.injEq, Bool.eq_iff_iff, hiff, decide_eq_true_iff]

/-- The search from what a key reads ends, and it finds the key if and only if the key depends on
itself. There is a key like that if and only if there is no order, and what is named then is one of
them. -/
theorem cyclic_agrees_order (g : Graph) :
    (∀ name deps, Dict.get? g name = some deps →
      ∀ rounds, deps.length + (g.map (·.2.length)).sum < rounds →
        g.searchWithin name rounds [] deps.reverse = some (decide (name ∈ g.cyclic))) ∧
    (∀ name, name ∈ g.cyclic ↔ g.DependsOn name name) ∧ g.cyclic.Sublist (Dict.keys g) ∧
    (g.cyclic ≠ [] ↔ ∃ name, g.order = .error name) ∧
    ∀ name, g.order = .error name → name ∈ g.cyclic :=
  ⟨fun _ _ hget _ hrounds => searchWithin_self hget hrounds, fun _ => mem_cyclic_iff,
    List.filter_sublist, cyclic_ne_nil_iff,
    fun _ horder => mem_cyclic_iff.2 (dependsOn_self_of_order horder)⟩

/-- One key leads into a cycle without being on it, and two share a third one. -/
def looped : Graph :=
  [("lead", ["a", "plain"]), ("a", ["b", "c"]), ("b", ["c"]), ("c", ["plain", "a"]), ("alone", [])]

/-- The key that leads into the cycle comes first, but the one that is named is on the cycle. -/
theorem cyclic_agrees_order_looped :
    looped.order = .error "a" ∧ "a" ∈ looped.cyclic ∧ "lead" ∉ looped.cyclic := by
  obtain ⟨hsearch, -, -, -, hnamed⟩ := cyclic_agrees_order looped
  have horder : looped.order = .error "a" := by decide
  have hlead := hsearch "lead" ["a", "plain"] rfl 10 (by decide)
  refine ⟨horder, hnamed "a" horder, fun hm => ?_⟩
  rw [decide_eq_true hm] at hlead
  exact absurd hlead (by decide)

end Archipelago.Dependency.Graph
