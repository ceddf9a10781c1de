import Archipelago.Proofs.Action.Sequence
import Archipelago.Proofs.Store.Reports

/-!
# What a delay leaves to be resumed

A delay among the actions of an event suspends all behind it, and what is resumed of it is gone
through as one sequence. A sequence that is suspended in there takes the actions behind it with it,
while it leaves them to run when they are the actions of an event. Up to there both do the same.
-/

namespace Archipelago

namespace Action

variable (locals : Dict Value)

/-! ## One action after the other -/

/-- What is run behind actions of which none is a delay goes on from what they leave. -/
theorem run_append {as : List Action} (has : ∀ a ∈ as, ∀ ms, a ≠ .delay ms) (more : List Action)
    (t : Trace) : run locals (as ++ more) t = (do
      let (u, pending) ← run locals as t
      let (v, pending') ← run locals more u
      .ok (v, pending ++ pending')) := by
  fun_induction run locals as t with
  | case1 t =>
    show run locals more t = run locals more t >>= fun r => .ok r
    exact (bind_pure _).symm
  | case2 ms rest t => exact absurd rfl (has _ List.mem_cons_self ms)
  | case3 steps rest t ih =>
    simp only [List.cons_append, run, bind_assoc]
    refine bind_congr fun r => ?_
    simp only [ih r.1 fun a ha => has a (List.mem_cons_of_mem _ ha), bind_assoc]
    simp [bind, Except.bind]
  | case4 leaf rest t hdelay hsequence ih =>
    rw [List.cons_append, run.eq_4 _ _ _ _ hdelay hsequence, bind_assoc]
    refine bind_congr fun u => ?_
    exact ih u fun a ha => has a (List.mem_cons_of_mem _ ha)

/-- A list of actions has run without a delay so far if its first action has, and then the
others. -/
theorem run_cons_eq_ok_nil {a : Action} {as : List Action} {t v : Trace} :
    run locals (a :: as) t = .ok (v, []) ↔
      ∃ u, run locals [a] t = .ok (u, []) ∧ run locals as u = .ok (v, []) := by
  by_cases hdelay : ∃ ms, a = .delay ms
  · obtain ⟨ms, rfl⟩ := hdelay
    simp [run]
  · have hfirst : ∀ b ∈ [a], ∀ ms, b ≠ .delay ms :=
      List.forall_mem_singleton.2 fun ms h => hdelay ⟨ms, h⟩
    have hsplit := run_append locals hfirst as t
    rw [List.singleton_append] at hsplit
    rw [hsplit, bind_eq_ok]
    constructor
    · rintro ⟨⟨u, pending⟩, hfirst, h⟩
      obtain ⟨⟨w, pending'⟩, hrest, h⟩ := bind_eq_ok.1 h
      obtain ⟨rfl, hnil⟩ := Prod.mk.inj (Except.ok.inj h)
      obtain ⟨rfl, rfl⟩ := List.append_eq_nil_iff.1 hnil
      exact ⟨u, hfirst, hrest⟩
    · rintro ⟨u, hfirst, hrest⟩
      exact ⟨(u, []), hfirst, bind_eq_ok.2 ⟨(v, []), hrest, rfl⟩⟩

/-- The first sequence that is suspended, if one is before a delay, is the last action. -/
def SuspendsLast (as : List Action) (t : Trace) : Prop :=
  ∀ before steps after u v c, as = before ++ .sequence steps :: after →
    run locals before t = .ok (u, []) → runSequence locals steps u = .ok (v, some c) → after = []

theorem suspendsLast_cons {a : Action} {as : List Action} {t : Trace} :
    SuspendsLast locals (a :: as) t ↔
      (∀ steps v c, a = .sequence steps → runSequence locals steps t = .ok (v, some c) → as = []) ∧
      ∀ u, run locals [a] t = .ok (u, []) → SuspendsLast locals as u := by
  constructor
  · intro h
    refine ⟨fun steps v c ha hrun => h [] steps as t v c (by rw [ha, List.nil_append]) rfl hrun, ?_⟩
    rintro u hfirst before steps after w v c rfl hbefore hrun
    exact h (a :: before) steps after w v c rfl
      ((run_cons_eq_ok_nil locals).2 ⟨u, hfirst, hbefore⟩) hrun
  · rintro ⟨hhead, htail⟩ before steps after u v c has hbefore hrun
    cases before with
    | nil =>
      obtain ⟨rfl, rfl⟩ := List.cons.inj has
      obtain rfl : t = u := (Prod.mk.inj (Except.ok.inj hbefore)).1
      exact hhead steps v c rfl hrun
    | cons b before =>
      obtain ⟨rfl, rfl⟩ := List.cons.inj has
      obtain ⟨w, hfirst, hbefore⟩ := (run_cons_eq_ok_nil locals).1 hbefore
      exact htail w hfirst before steps after u v c rfl hbefore hrun

/-- An action that has run without a delay is of no account. -/
theorem suspendsLast_cons_of_ok {a : Action} {as : List Action} {t u : Trace}
    (h : run locals [a] t = .ok (u, [])) :
    SuspendsLast locals (a :: as) t ↔ SuspendsLast locals as u := by
  rw [suspendsLast_cons]
  constructor
  · exact fun hall => hall.2 u h
  · refine fun htail => ⟨?_, ?_⟩
    · rintro steps v c rfl hrun
      simp [run, hrun, bind, Except.bind] at h
    · intro w hw
      obtain rfl : u = w := (Prod.mk.inj (Except.ok.inj (h.symm.trans hw))).1
      exact htail

theorem suspendsLast_cons_of_error {a : Action} {as : List Action} {t : Trace} {f : Failure}
    (h : run locals [a] t = .error f) : SuspendsLast locals (a :: as) t := by
  rw [suspendsLast_cons]
  constructor
  · rintro steps v c rfl hrun
    simp [run, hrun, bind, Except.bind] at h
  · intro u hu
    rw [h] at hu
    cases hu

theorem suspendsLast_cons_of_suspended {steps as : List Action} {t u : Trace} {c : Continuation}
    (h : runSequence locals steps t = .ok (u, some c)) :
    SuspendsLast locals (.sequence steps :: as) t ↔ as = [] := by
  rw [suspendsLast_cons]
  refine ⟨fun hall => hall.1 steps u c rfl h, fun has => ⟨fun _ _ _ _ _ => has, fun v hv => ?_⟩⟩
  simp [run, h, bind, Except.bind] at hv

/-! ## The same as one sequence -/

theorem resume_leaf {a : Action} (ha : a.isLeaf = true) (ms : Nat) (as : List Action) (t : Trace) :
    (Continuation.mk ms (a :: as) locals).resume t = (do
      (Continuation.mk ms as locals).resume (← runLeaf locals a t)) := by
  have hstep : runStep locals a t = (do .ok (← runLeaf locals a t, none)) := by
    cases a with
    | sequence steps => cases ha
    | delay ms => cases ha
    | _ => rfl
  simp only [Continuation.resume, runSequence, hstep, bind_assoc]
  rfl

theorem resume_sequence (ms : Nat) (steps as : List Action) (t : Trace) :
    (Continuation.mk ms (.sequence steps :: as) locals).resume t = (do
      let (u, suspended) ← runSequence locals steps t
      match suspended with
      | some c => .ok (u, [⟨c.delayMs, c.steps ++ as, locals⟩])
      | none => (Continuation.mk ms as locals).resume u) := by
  simp only [Continuation.resume, runSequence, runStep, bind_assoc]
  refine bind_congr fun r => ?_
  obtain ⟨u, _ | c⟩ := r
  · rfl
  · rfl

/-- A sequence that is suspended is resumed in front of what has been behind it. In a list it leaves
what is behind it to run, and that is the same only if there is nothing behind it. -/
theorem suspended_eq_iff {c : Continuation} (hc : c.locals = locals) (as : List Action)
    (u : Trace) :
    Except.ok (u, [⟨c.delayMs, c.steps ++ as, locals⟩]) = (do
      let (v, more) ← run locals as u
      .ok (v, c :: more) : Outcome) ↔ as = [] := by
  subst hc
  constructor
  · intro h
    obtain ⟨⟨v, more⟩, -, h⟩ := bind_eq_ok.1 h.symm
    have hlists : c :: more = [⟨c.delayMs, c.steps ++ as, c.locals⟩] :=
      (Prod.mk.inj (Except.ok.inj h)).2
    have hsteps := congrArg Continuation.steps (List.cons.inj hlists).1
    exact List.append_right_eq_self.1 hsteps.symm
  · rintro rfl
    rw [List.append_nil]
    rfl

/-- What is left of a list comes to the same as the list unless a sequence in it is suspended in
front of other actions: these wait in the one case and run in the other. -/
theorem resume_eq_run_iff (ms : Nat) (as : List Action) (t : Trace) :
    (Continuation.mk ms as locals).resume t = run locals as t ↔ SuspendsLast locals as t := by
  fun_induction run locals as t with
  | case1 t =>
    refine iff_of_true rfl fun before steps after u v c has => ?_
    simp at has
  | case2 ms' rest t =>
    refine iff_of_true rfl ((suspendsLast_cons locals).2 ⟨fun steps v c ha => ?_, fun u hu => ?_⟩)
    · cases ha
    · cases hu
  | case3 steps rest t ih =>
    rw [resume_sequence]
    cases hrun : runSequence locals steps t with
    | error f =>
      have hfirst : run locals [.sequence steps] t = .error f := by
        simp [run, hrun, bind, Except.bind]
      exact iff_of_true rfl (suspendsLast_cons_of_error locals hfirst)
    | ok r =>
      obtain ⟨u, _ | c⟩ := r
      · have hfirst : run locals [.sequence steps] t = .ok (u, []) := by
          simp [run, hrun, bind, Except.bind]
        have hrest : (do
            let (v, more) ← run locals rest u
            .ok (v, [] ++ more) : Outcome) = run locals rest u := bind_pure _
        rw [suspendsLast_cons_of_ok locals hfirst, ← ih u, ← hrest]
        rfl
      · rw [suspendsLast_cons_of_suspended locals hrun]
        exact suspended_eq_iff locals ((suspended_smaller locals).1 steps t u c hrun).1 rest u
  | case4 leaf rest t hdelay hsequence ih =>
    rw [resume_leaf locals (isLeaf_of_ne hdelay hsequence)]
    have hfirst : run locals [leaf] t = (do .ok (← runLeaf locals leaf t, [])) :=
      run.eq_4 _ _ _ _ hdelay hsequence
    cases hrun : runLeaf locals leaf t with
    | error f =>
      rw [hrun] at hfirst
      exact iff_of_true rfl (suspendsLast_cons_of_error locals hfirst)
    | ok u =>
      rw [hrun] at hfirst
      rw [suspendsLast_cons_of_ok locals hfirst]
      exact ih u

/-! ## Sequences that are not suspended -/

/-- What is suspended waits for one of the delays. -/
theorem delayMs_mem_delays :
    (∀ as t u c, runSequence locals as t = .ok (u, some c) → c.delayMs ∈ delays as) ∧
      ∀ a t u ms rest, runStep locals a t = .ok (u, some (ms, rest)) →
        ms ∈ (flat a).filterMap delay? := by
  refine runSequence.mutual_induct _ _ ?delay ?sequence ?leaf ?nil ?cons
  case delay =>
    intro ms t u ms' rest h
    obtain ⟨-, h⟩ := Prod.mk.inj (Except.ok.inj h)
    obtain ⟨rfl, -⟩ := Prod.mk.inj (Option.some.inj h)
    exact List.mem_singleton_self ms
  case sequence =>
    intro steps t ih u ms rest h
    obtain ⟨⟨v, suspended⟩, hrun, h⟩ := bind_eq_ok.1 (runStep.eq_2 .. ▸ h)
    obtain ⟨-, h⟩ := Prod.mk.inj (Except.ok.inj h)
    obtain ⟨c, rfl, hcut⟩ := Option.map_eq_some_iff.1 h
    obtain ⟨rfl, -⟩ := Prod.mk.inj hcut
    exact ih v c hrun
  case leaf =>
    intro leaf t hdelay hsequence u ms rest h
    rw [runStep.eq_3 locals leaf t hdelay hsequence] at h
    obtain ⟨v, -, h⟩ := bind_eq_ok.1 h
    cases h
  case nil => exact fun t u c h => by cases h
  case cons =>
    intro a as t ha has u c h
    rw [runSequence] at h
    obtain ⟨⟨v, suspended⟩, hstep, h⟩ := bind_eq_ok.1 h
    rw [delays, flatAll, List.filterMap_append, List.mem_append]
    cases suspended with
    | none => exact .inr (has v u c h)
    | some cut =>
      obtain ⟨ms, rest⟩ := cut
      obtain ⟨-, h⟩ := Prod.mk.inj (Except.ok.inj h)
      obtain rfl := Option.some.inj h
      exact .inl (ha v ms rest hstep)

/-- Sequences without delays are not suspended. -/
theorem suspendsLast_of_delays {as : List Action} (h : ∀ before steps after,
    as = before ++ .sequence steps :: after → after = [] ∨ delays steps = []) (t : Trace) :
    SuspendsLast locals as t := by
  intro before steps after u v c has _ hrun
  refine (h before steps after has).resolve_right fun hnone => ?_
  have hdelay := (delayMs_mem_delays locals).1 steps u v c hrun
  rw [hnone] at hdelay
  cases hdelay

/-! ## Delays among the actions of an event -/

/-- A delay among the actions of an event, the first one that stands in no sequence, gives back the
actions behind it. What comes of them when they are resumed is what comes of them as the actions of
an event if and only if none of their sequences is suspended there in front of others, and that is
so in every store if only the last one of the sequences among them has delays and nothing stands
behind it. -/
theorem run_delay {pre : List Action} (hpre : ∀ a ∈ pre, ∀ ms, a ≠ .delay ms) {t u : Trace}
    {pending : List Continuation} (hrun : run locals pre t = .ok (u, pending)) (ms : Nat)
    (rest : List Action) :
    run locals (pre ++ .delay ms :: rest) t = .ok (u, pending ++ [⟨ms, rest, locals⟩]) ∧
    (∀ t', (Continuation.mk ms rest locals).resume t' = run locals rest t' ↔
      SuspendsLast locals rest t') ∧
    ((∀ before steps after, rest = before ++ .sequence steps :: after →
      after = [] ∨ delays steps = []) →
        ∀ t', (Continuation.mk ms rest locals).resume t' = run locals rest t') := by
  refine ⟨?_, resume_eq_run_iff locals ms rest, fun hdelays t' => ?_⟩
  · rw [run_append locals hpre, hrun]
    rfl
  · exact (resume_eq_run_iff locals ms rest t').2 (suspendsLast_of_delays locals hdelays t')

/-- A counter at zero. -/
def counting : Store := (LiveStore.serve { kept := ⟨{}, none⟩ } LiveStore.counter).kept.store

/-- One more. -/
def count : Action := .increment "n" (.value (.number 1))

/-- Behind a sequence that is suspended by itself there is a delay, and behind that no sequence that
has one: it is the same to run it and to resume it, in every store. -/
theorem run_delay_counting :
    run [] [.sequence [.delay 5, count], .delay 10, .sequence [count], count]
        { store := counting } =
      .ok ({ store := counting }, [⟨5, [count], []⟩, ⟨10, [.sequence [count], count], []⟩]) ∧
    ∀ t, (Continuation.mk 10 [.sequence [count], count] []).resume t =
      run [] [.sequence [count], count] t := by
  have hpre : ∀ a ∈ [Action.sequence [.delay 5, count]], ∀ ms, a ≠ .delay ms :=
    List.forall_mem_singleton.2 fun ms => nofun
  have hdelay := run_delay [] hpre (t := { store := counting }) rfl 10 [.sequence [count], count]
  refine ⟨hdelay.1, hdelay.2.2 fun before steps after h => .inr ?_⟩
  cases before with
  | nil =>
    obtain ⟨hsteps, -⟩ := List.cons.inj h
    obtain rfl := Action.sequence.inj hsteps
    rfl
  | cons a before =>
    obtain ⟨-, h⟩ := List.cons.inj h
    cases before with
    | nil => cases h
    | cons b before => simp at h

/-- A sequence with a delay stands behind another delay and in front of a count. Resumed, the count
waits for the sequence, though it would not wait among the actions of an event. -/
theorem resume_ne_run_counting :
    run [] [.delay 10, .sequence [.delay 5], count] { store := counting } =
      .ok ({ store := counting }, [⟨10, [.sequence [.delay 5], count], []⟩]) ∧
    (Continuation.mk 10 [.sequence [.delay 5], count] []).resume { store := counting } =
      .ok ({ store := counting }, [⟨5, [count], []⟩]) ∧
    ∃ t, run [] [.sequence [.delay 5], count] { store := counting } = .ok (t, [⟨5, [], []⟩]) ∧
      t.changed = ["n"] := by
  refine ⟨rfl, rfl, ?_⟩
  have hcount : (runLeaf [] count { store := counting }).toOption.map (·.changed) = some ["n"] := by
    decide +kernel
  obtain ⟨t, ht, hchanged⟩ := Option.map_eq_some_iff.1 hcount
  refine ⟨t, ?_, hchanged⟩
  show (do
    let (v, more) ← (do run [] [] (← runLeaf [] count { store := counting }))
    .ok (v, [⟨5, [], []⟩] ++ more) : Outcome) = _
  rw [toOption_eq_some.1 ht]
  rfl

end Action

end Archipelago
