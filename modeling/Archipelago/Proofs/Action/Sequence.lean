import Archipelago.Proofs.Action.Trace
import Archipelago.Proofs.Store.Atomic
import Mathlib.Algebra.GroupWithZero.Nat

/-!
# Sequences that are resumed to their end

A delay cuts a sequence in two, at any depth: the run gives back the steps behind it, those of the
sequences around it included, to be resumed later. Nothing is lost, repeated or reordered by that. A
sequence that is resumed until nothing is left does what its steps do one after the other, all
nesting taken out.
-/

namespace Archipelago

/-! ## Steps without nesting -/

namespace Action

mutual

/-- The steps of an action, first to last, with no sequence around them. -/
def flat : Action → List Action
  | sequence steps => flatAll steps
  | a => [a]

def flatAll : List Action → List Action
  | [] => []
  | a :: as => flat a ++ flatAll as

end

/-- How long a step waits, if it is a delay. -/
def delay? : Action → Option Nat
  | delay ms => some ms
  | _ => none

/-- The actions that do something to a store. -/
def leaves (as : List Action) : List Action := (flatAll as).filter isLeaf

/-- The delays in a list of actions, at any depth. -/
def delays (as : List Action) : List Nat := (flatAll as).filterMap delay?

theorem flatAll_append (as bs : List Action) : flatAll (as ++ bs) = flatAll as ++ flatAll bs := by
  induction as with
  | nil => rfl
  | cons a as ih => simp [flatAll, ih]

theorem sizeAll_append (as bs : List Action) : sizeAll (as ++ bs) = sizeAll as + sizeAll bs := by
  induction as with
  | nil => simp [sizeAll]
  | cons a as ih => simp [sizeAll, ih, Nat.add_assoc]

theorem isLeaf_of_ne {a : Action} (hdelay : ∀ ms, a = delay ms → False)
    (hsequence : ∀ steps, a = sequence steps → False) : a.isLeaf = true := by
  cases a with
  | sequence steps => exact (hsequence steps rfl).elim
  | delay ms => exact (hdelay ms rfl).elim
  | _ => rfl

theorem delay?_of_isLeaf {a : Action} (h : a.isLeaf = true) : a.delay? = none := by
  cases a with
  | delay ms => simp [isLeaf] at h
  | _ => rfl

theorem flat_of_isLeaf {a : Action} (h : a.isLeaf = true) : flat a = [a] := by
  cases a with
  | sequence steps => simp [isLeaf] at h
  | _ => rfl

/-- Without nesting there is no sequence left. -/
theorem isLeaf_or_delay_of_mem_flat :
    (∀ a, ∀ b ∈ flat a, b.isLeaf = true ∨ ∃ ms, b = .delay ms) ∧
      ∀ as, ∀ b ∈ flatAll as, b.isLeaf = true ∨ ∃ ms, b = .delay ms := by
  refine flat.mutual_induct _ _ ?sequence ?single ?nil ?cons
  case sequence =>
    intro steps ih b hb
    exact ih b (by simpa [flat] using hb)
  case single =>
    intro a hsequence b hb
    obtain rfl : b = a := by simpa [flat] using hb
    by_cases hdelay : ∃ ms, b = .delay ms
    · exact .inr hdelay
    · exact .inl (isLeaf_of_ne (fun ms h => hdelay ⟨ms, h⟩) hsequence)
  case nil =>
    intro b hb
    simp [flatAll] at hb
  case cons =>
    intro a as ha has b hb
    rw [flatAll, List.mem_append] at hb
    exact hb.elim (ha b) (has b)

/-! ## Where a run is cut -/

/-- The steps of a sequence are run one by one. -/
theorem runStep_sequence_cons (locals : Dict Value) (a : Action) (as : List Action) (t : Trace) :
    runStep locals (.sequence (a :: as)) t = (do
      let (u, suspended) ← runStep locals a t
      match suspended with
      | some (ms, rest) => .ok (u, some (ms, rest ++ as))
      | none => runStep locals (.sequence as) u) := by
  simp only [runStep, runSequence, bind_assoc]
  refine bind_congr fun r => ?_
  obtain ⟨u, suspended⟩ := r
  cases suspended with
  | some rest => rfl
  | none => rfl

/-- What is left behind a delay is less than what there was, and keeps the bindings. -/
theorem suspended_smaller (locals : Dict Value) :
    (∀ as t u c, runSequence locals as t = .ok (u, some c) →
        c.locals = locals ∧ c.size < sizeAll as) ∧
      ∀ a t u ms rest, runStep locals a t = .ok (u, some (ms, rest)) → sizeAll rest < size a := by
  refine runSequence.mutual_induct _ _ ?delay ?sequence ?leaf ?nil ?cons
  case delay =>
    intro ms t u ms' rest h
    simp only [runStep, Except.ok.injEq, Prod.mk.injEq, Option.some.injEq] at h
    obtain ⟨-, -, rfl⟩ := h
    simp [sizeAll, size]
  case sequence =>
    intro steps t ih u ms rest h
    obtain ⟨⟨v, suspended⟩, hrun, h⟩ := bind_eq_ok.1 (runStep.eq_2 .. ▸ h)
    simp only [Except.ok.injEq, Prod.mk.injEq, Option.map_eq_some_iff] at h
    obtain ⟨rfl, c, rfl, -, rfl⟩ := h
    exact Nat.lt_succ_of_lt (ih v c hrun).2
  case leaf =>
    intro leaf t hdelay hsequence u ms rest h
    rw [runStep.eq_3 locals leaf t hdelay hsequence] at h
    obtain ⟨v, -, h⟩ := bind_eq_ok.1 h
    simp at h
  case nil => exact fun t u c h => by simp [runSequence] at h
  case cons =>
    intro a as t ha has u c h
    rw [runSequence] at h
    obtain ⟨⟨v, suspended⟩, hstep, h⟩ := bind_eq_ok.1 h
    cases suspended with
    | none =>
      have hc := has v u c h
      exact ⟨hc.1, Nat.lt_add_left _ hc.2⟩
    | some cut =>
      obtain ⟨ms, rest⟩ := cut
      simp only [Except.ok.injEq, Prod.mk.injEq, Option.some.injEq] at h
      obtain ⟨rfl, rfl⟩ := h
      refine ⟨rfl, ?_⟩
      calc sizeAll (rest ++ as)
        _ = sizeAll rest + sizeAll as := sizeAll_append rest as
        _ < size a + sizeAll as := Nat.add_lt_add_right (ha v ms rest hstep) _

end Action

namespace Continuation

/-- A resumption suspends at most one continuation, and a smaller one with the same bindings. -/
theorem resume_eq_ok {c : Continuation} {t u : Trace} {more : List Continuation}
    (h : c.resume t = .ok (u, more)) :
    ∃ suspended, Action.runSequence c.locals c.steps t = .ok (u, suspended) ∧
      more = suspended.toList ∧
      ∀ d ∈ suspended, d.locals = c.locals ∧ d.size < c.size := by
  obtain ⟨⟨v, suspended⟩, hrun, h⟩ := bind_eq_ok.1 h
  simp only [Except.ok.injEq, Prod.mk.injEq] at h
  obtain ⟨rfl, rfl⟩ := h
  refine ⟨suspended, hrun, rfl, ?_⟩
  rintro d rfl
  exact (Action.suspended_smaller c.locals).1 _ _ _ _ hrun

end Continuation

/-! ## To the end -/

namespace LiveStore

/-- A store with what actions have done to it. -/
def afterTrace (l : LiveStore) (t : Trace) : LiveStore := l.after t.store t.saves t.notices

@[simp] theorem afterTrace_start (l : LiveStore) : l.afterTrace { store := l.kept.store } = l := by
  rw [afterTrace, after_nil]
  rfl

/-- Runs actions. What has been done before a failure stays done. -/
def fire (l : LiveStore) (run : Trace → Outcome) :
    Except ActionError (List Continuation) × LiveStore :=
  match run { store := l.kept.store } with
  | .ok (t, suspended) => (.ok suspended, l.afterTrace t)
  | .error f => (.error f.error, l.afterTrace f.trace)

/-- What comes of a run with all that is resumed of it: the delays on the way, how it ends, and what
it leaves. -/
structure Course where
  delays : List Nat
  outcome : Except ActionError Unit
  live : LiveStore

/-- The same behind one more delay. -/
def Course.behind (ms : Nat) (c : Course) : Course := { c with delays := ms :: c.delays }

/-- Resumes one continuation after the other, until none is left or one fails. -/
def resumeAll (l : LiveStore) : List Continuation → Course
  | [] => ⟨[], .ok (), l⟩
  | c :: waiting =>
    match _resumed : c.resume { store := l.kept.store } with
    | .ok (t, more) => (resumeAll (l.afterTrace t) (waiting ++ more)).behind c.delayMs
    | .error f => ⟨[c.delayMs], .error f.error, l.afterTrace f.trace⟩
termination_by waiting => (waiting.map fun c => c.size + 1).sum
decreasing_by
  obtain ⟨suspended, -, rfl, hsmaller⟩ := Continuation.resume_eq_ok _resumed
  cases suspended with
  | none => simp
  | some d =>
    have := (hsmaller d rfl).2
    simp
    omega

/-- Runs actions, and then all that they suspend. -/
def complete (l : LiveStore) (locals : Dict Value) (as : List Action) : Course :=
  match l.fire (Action.run locals as) with
  | (.ok suspended, l) => resumeAll l suspended
  | (.error e, l) => ⟨[], .error e, l⟩

/-- Executes one action after the other. -/
def executeAll (locals : Dict Value) : List Action → Step ActionError Unit
  | [] => pure ()
  | a :: as => do
    let _ ← execute locals a
    executeAll locals as

/-! ## Steps in a row -/

/-- Goes along steps that are not nested: a delay is noted, all else is executed. -/
def walk (locals : Dict Value) : List Action → LiveStore → Course
  | [], l => ⟨[], .ok (), l⟩
  | .delay ms :: as, l => (walk locals as l).behind ms
  | a :: as, l =>
    match (execute locals a).run l with
    | (.ok _, l) => walk locals as l
    | (.error e, l) => ⟨[], .error e, l⟩

/-- How a walk goes on behind a step that has been run. -/
def goOn (locals : Dict Value) (as : List Action) (l : LiveStore) :
    Except Failure (Trace × Option (Nat × List Action)) → Course
  | .ok (t, none) => walk locals as (l.afterTrace t)
  | .ok (t, some (ms, rest)) =>
    (walk locals (Action.flatAll rest ++ as) (l.afterTrace t)).behind ms
  | .error f => ⟨[], .error f.error, l.afterTrace f.trace⟩

section Walk

variable (locals : Dict Value) (l : LiveStore)

/-- What is done after something else has been done is done to one store. -/
theorem after_after {s s' : Store} (h : s'.scope = s.scope) (saves saves' : List (String × String))
    (notices notices' : List Notice) :
    (l.after s saves notices).after s' saves' notices' =
      l.after s' (saves ++ saves') (notices ++ notices') := by
  simp [after, KeptStore.keep, Storage.saveAll, h, Function.comp_def]

theorem walk_leaf (as : List Action) {a : Action} (h : a.isLeaf = true) :
    walk locals (a :: as) l = match (execute locals a).run l with
      | (.ok _, l) => walk locals as l
      | (.error e, l) => ⟨[], .error e, l⟩ := by
  cases a with
  | sequence steps => simp [Action.isLeaf] at h
  | delay ms => simp [Action.isLeaf] at h
  | _ => rfl

/-- It is the same to go on with a trace and with the store that the trace has been done to. -/
theorem walk_leaf_afterTrace (as : List Action) {a : Action} (h : a.isLeaf = true) (t : Trace) :
    walk locals (a :: as) (l.afterTrace t) = match Action.runLeaf locals a t with
      | .ok u => walk locals as (l.afterTrace u)
      | .error f => ⟨[], .error f.error, l.afterTrace f.trace⟩ := by
  have hstore : (l.afterTrace t).kept.store = t.store := rfl
  rw [walk_leaf _ _ _ h, run_execute, Action.runLeaf, Action.runLeaf, hstore]
  dsimp only
  cases a.writes t.store locals with
  | error e => rfl
  | ok ws =>
    dsimp only
    cases happly : t.store.apply ws with
    | error e => rfl
    | ok r =>
      obtain ⟨s, c⟩ := r
      have hscope : s.scope = t.store.scope :=
        (congrArg Store.scope (Store.apply_tracks happly).frame :)
      exact congrArg (walk locals as) (after_after l hscope t.saves c.saves t.notices c.notices)

/-- A step with steps behind it, and the same without nesting. What stands behind is any list of
steps, since a delay at any depth suspends those of the sequences around it as well. -/
theorem walk_steps :
    (∀ as t rest, walk locals (Action.flatAll as ++ rest) (l.afterTrace t) =
        goOn locals rest l (Action.runStep locals (.sequence as) t)) ∧
      ∀ a t rest, walk locals (Action.flat a ++ rest) (l.afterTrace t) =
        goOn locals rest l (Action.runStep locals a t) := by
  refine Action.runSequence.mutual_induct _ _ ?delay ?sequence ?leaf ?nil ?cons
  case delay => exact fun ms t rest => rfl
  case sequence => exact fun steps t ih rest => ih rest
  case leaf =>
    intro leaf t hdelay hsequence rest
    have hleaf := Action.isLeaf_of_ne hdelay hsequence
    rw [Action.flat_of_isLeaf hleaf, List.singleton_append, walk_leaf_afterTrace _ _ _ hleaf,
      Action.runStep.eq_3 locals leaf t hdelay hsequence]
    cases Action.runLeaf locals leaf t with
    | error f => rfl
    | ok u => rfl
  case nil => exact fun t rest => rfl
  case cons =>
    intro a as t ha has rest
    rw [Action.runStep_sequence_cons, Action.flatAll, List.append_assoc, ha]
    cases hstep : Action.runStep locals a t with
    | error f => rfl
    | ok r =>
      obtain ⟨u, _ | ⟨ms, more⟩⟩ := r
      · exact has u rest
      · simp [goOn, bind, Except.bind, Action.flatAll_append]

/-- A walk is a run up to the first delay, and a walk along what is left behind it. -/
theorem walk_flatAll (as : List Action) :
    walk locals (Action.flatAll as) l =
      match Action.runSequence locals as { store := l.kept.store } with
      | .ok (t, none) => ⟨[], .ok (), l.afterTrace t⟩
      | .ok (t, some c) =>
        (walk locals (Action.flatAll c.steps) (l.afterTrace t)).behind c.delayMs
      | .error f => ⟨[], .error f.error, l.afterTrace f.trace⟩ := by
  have h := (walk_steps locals l).1 as { store := l.kept.store } []
  rw [afterTrace_start, List.append_nil, Action.runStep] at h
  rw [h]
  cases Action.runSequence locals as { store := l.kept.store } with
  | error f => rfl
  | ok r =>
    obtain ⟨t, _ | c⟩ := r
    · rfl
    · simp [goOn, bind, Except.bind]

end Walk

theorem resumeAll_cons (l : LiveStore) (c : Continuation) (waiting : List Continuation) :
    resumeAll l (c :: waiting) = match l.fire c.resume with
      | (.ok more, l) => (resumeAll l (waiting ++ more)).behind c.delayMs
      | (.error e, l) => ⟨[c.delayMs], .error e, l⟩ := by
  rw [resumeAll, fire]
  split
  · rename_i t more h
    rw [h]
  · rename_i f h
    rw [h]

/-- To resume a continuation to its end is to walk along its steps. -/
theorem resumeAll_singleton (c : Continuation) (l : LiveStore) :
    resumeAll l [c] = (walk c.locals (Action.flatAll c.steps) l).behind c.delayMs := by
  induction hn : c.size using Nat.strongRecOn generalizing c l with
  | _ n ih =>
    subst hn
    rw [resumeAll_cons, walk_flatAll, fire, Continuation.resume]
    cases hrun : Action.runSequence c.locals c.steps { store := l.kept.store } with
    | error f => rfl
    | ok r =>
      obtain ⟨t, _ | d⟩ := r
      · simp [bind, Except.bind, resumeAll]
      · have hd := (Action.suspended_smaller c.locals).1 _ _ _ _ hrun
        have hrest := ih d.size hd.2 d (l.afterTrace t) rfl
        rw [hd.1] at hrest
        simpa [bind, Except.bind] using congrArg (Course.behind c.delayMs) hrest

/-- A sequence that is resumed to its end is a walk along all of its steps. -/
theorem complete_eq_walk (locals : Dict Value) (steps : List Action) (l : LiveStore) :
    l.complete locals [.sequence steps] = walk locals (Action.flatAll steps) l := by
  rw [walk_flatAll, complete, fire]
  simp only [Action.run]
  cases hrun : Action.runSequence locals steps { store := l.kept.store } with
  | error f => rfl
  | ok r =>
    obtain ⟨t, _ | c⟩ := r
    · simp [bind, Except.bind, resumeAll]
    · have hc := (Action.suspended_smaller locals).1 _ _ _ _ hrun
      simpa [bind, Except.bind, hc.1] using resumeAll_singleton c (l.afterTrace t)

/-! ## What a walk does -/

section Walk

variable (locals : Dict Value)

/-- A walk leaves what the leaves leave that are executed one after the other. -/
theorem outcome_walk (as : List Action) (l : LiveStore)
    (has : ∀ a ∈ as, a.isLeaf = true ∨ ∃ ms, a = .delay ms) :
    ((walk locals as l).outcome, (walk locals as l).live) =
      (executeAll locals (as.filter Action.isLeaf)).run l := by
  induction as generalizing l with
  | nil => rfl
  | cons a as ih =>
    have hrest : ∀ b ∈ as, b.isLeaf = true ∨ ∃ ms, b = .delay ms := fun b hb =>
      has b (List.mem_cons_of_mem _ hb)
    obtain hleaf | ⟨ms, rfl⟩ := has a List.mem_cons_self
    · rw [walk_leaf _ _ _ hleaf, List.filter_cons_of_pos hleaf, executeAll, run_bind]
      obtain ⟨changed | e, l'⟩ := (execute locals a).run l
      · rfl
      · exact ih l' hrest
    · rw [List.filter_cons_of_neg (by simp [Action.isLeaf])]
      exact ih l hrest

/-- A walk notes the delays on its way. It comes to the end, or it stops at a leaf that fails. -/
theorem delays_walk (as : List Action) (l : LiveStore)
    (has : ∀ a ∈ as, a.isLeaf = true ∨ ∃ ms, a = .delay ms) :
    match (walk locals as l).outcome with
    | .ok () => (walk locals as l).delays = as.filterMap Action.delay?
    | .error e => ∃ done a rest l', as = done ++ a :: rest ∧
        (walk locals as l).delays = done.filterMap Action.delay? ∧
        (executeAll locals (done.filter Action.isLeaf)).run l = (.ok (), l') ∧
        (execute locals a).run l' = (.error e, (walk locals as l).live) := by
  induction as generalizing l with
  | nil => rfl
  | cons a as ih =>
    have hrest : ∀ b ∈ as, b.isLeaf = true ∨ ∃ ms, b = .delay ms := fun b hb =>
      has b (List.mem_cons_of_mem _ hb)
    obtain hleaf | ⟨ms, rfl⟩ := has a List.mem_cons_self
    · rw [walk_leaf _ _ _ hleaf]
      have hnone := Action.delay?_of_isLeaf hleaf
      cases hrun : (execute locals a).run l with
      | mk x l' =>
        cases x with
        | error e => exact ⟨[], a, as, l, rfl, rfl, rfl, hrun⟩
        | ok changed =>
          have hwalk := ih l' hrest
          dsimp only
          cases hend : (walk locals as l').outcome with
          | ok u =>
            rw [hend] at hwalk
            exact hwalk.trans (List.filterMap_cons_none hnone).symm
          | error e =>
            rw [hend] at hwalk
            obtain ⟨done, b, rest, l'', rfl, hdelays, hdone, hb⟩ := hwalk
            refine ⟨a :: done, b, rest, l'', rfl, ?_, ?_, hb⟩
            · rw [hdelays, List.filterMap_cons_none hnone]
            · rw [List.filter_cons_of_pos hleaf, executeAll, run_bind, hrun]
              exact hdone
    · have hwalk := ih l hrest
      show match (walk locals as l).outcome with
        | .ok () => ms :: (walk locals as l).delays = ms :: as.filterMap Action.delay?
        | .error e => _
      cases hend : (walk locals as l).outcome with
      | ok u =>
        rw [hend] at hwalk
        exact congrArg (ms :: ·) hwalk
      | error e =>
        rw [hend] at hwalk
        obtain ⟨done, b, rest, l', rfl, hdelays, hdone, hb⟩ := hwalk
        exact ⟨.delay ms :: done, b, rest, l', rfl, congrArg (ms :: ·) hdelays, hdone, hb⟩

end Walk

/-! ## Sequences -/

/-- A sequence that is resumed until nothing is left executes its leaves, first to last and each
once with the captured bindings, and gives back its delays. If a leaf fails, it stops there, and the
delays are those before that leaf. -/
theorem complete_sequence (locals : Dict Value) (steps : List Action) (l : LiveStore) :
    let c := l.complete locals [.sequence steps]
    (c.outcome, c.live) = (executeAll locals (Action.leaves steps)).run l ∧
      match c.outcome with
      | .ok () => c.delays = Action.delays steps
      | .error e => ∃ done a rest l', Action.flatAll steps = done ++ a :: rest ∧
          c.delays = done.filterMap Action.delay? ∧
          (executeAll locals (done.filter Action.isLeaf)).run l = (.ok (), l') ∧
          (execute locals a).run l' = (.error e, c.live) := by
  have has : ∀ a ∈ Action.flatAll steps, a.isLeaf = true ∨ ∃ ms, a = .delay ms :=
    Action.isLeaf_or_delay_of_mem_flat.2 steps
  rw [complete_eq_walk]
  exact ⟨outcome_walk locals _ l has, delays_walk locals _ l has⟩

end LiveStore

end Archipelago
