import NetKit.Proofs.Gate.Delivery

/-!
# Nests — a failure on its way out of closures in closures

A nest is a call whose closure runs a call whose closure runs a call, and so on, with other steps before
and behind the call at every level. What has been run when the innermost closure begins depends on the
steps before the calls only (`Approach`), and what happens from its end on is the same work at every level
(`Tier.finish`): the closure goes on to its own end unless it has failed, the gate is closed, the failure
logged, and the steps behind the call follow unless the call propagates the failure. So the run of a nest
is the way down, the innermost steps, and this work from the innermost level to the outermost one
(`Routine.run_nest`).

The work of a level on a failure that it propagates does not look at what else there would be to do
(`Tier.finish_of_failure`), and this is why such a failure passes through any number of tiers as it is.

## Contents
- `Routine.append`, `Routine.run_append`: steps followed by more steps.
- `Approach`, `Tier`, `Routine.nest`: nests.
- `Reached`, `bottom`, `descent`: the way down; `reached_iff`: unused gates with nothing before the calls.
- `Tier.finish`, `Routine.run_nest`: whole nests.
- `failAll`, `ascent`, `PassedOn`: the way out of a failure.
- `Routine.nest_failure`: failures that are propagated, and failures that are not.
-/

namespace NetKit

/-! ## Steps in a row -/

namespace Routine

/-- The steps of a routine followed by those of another. -/
def append : Routine → Routine → Routine
  | done, q => q
  | query g next, q => .query g (next.append q)
  | call g propagate body ending next, q => .call g propagate body ending (next.append q)
  | load g propagate timeout next, q => .load g propagate timeout (next.append q)
  | threads g count ending next, q => .threads g count ending (next.append q)

end Routine

namespace RoutineRun

theorem after_after (earlier earlier' : Trace RoutineEntry) (r : RoutineRun) :
    (r.after earlier').after earlier = r.after (earlier ++ earlier') := by
  unfold after
  rw [List.append_assoc]

@[simp] theorem outcome_after (earlier : Trace RoutineEntry) (r : RoutineRun) :
    (r.after earlier).outcome = r.outcome := rfl

/-- A run that goes on with more steps, unless it has failed. -/
def andRun (r : RoutineRun) (q : Routine) : RoutineRun :=
  if r.outcome.isFailure then r else (q.run r.gates).after r.trace

theorem andRun_after (earlier : Trace RoutineEntry) (r : RoutineRun) (q : Routine) :
    (r.after earlier).andRun q = (r.andRun q).after earlier := by
  unfold andRun
  rw [outcome_after]
  split
  · rfl
  · rw [gates_after, trace_after, after_after]

theorem andRun_of_ok {r : RoutineRun} (h : r.outcome.isFailure = false) (q : Routine) :
    r.andRun q = (q.run r.gates).after r.trace := by
  unfold andRun
  rw [h]
  rfl

end RoutineRun

namespace Routine

/-- More steps behind those of `resume`. -/
theorem resume_append {p q : Routine} {gs : Gates} (h : (p.append q).run gs = (p.run gs).andRun q)
    (propagate : Bool) (outcome : Outcome) :
    (p.append q).resume propagate outcome gs = (p.resume propagate outcome gs).andRun q := by
  unfold resume
  split
  · next hskipped =>
      rw [Bool.and_eq_true] at hskipped
      unfold RoutineRun.andRun
      rw [if_pos hskipped.2]
  · exact h

/-- **`append` is run in a row, unless a failure ends the first routine.** -/
theorem run_append (p q : Routine) (gs : Gates) : (p.append q).run gs = (p.run gs).andRun q := by
  induction p generalizing gs with
  | done => rfl
  | query g next ih =>
      rw [append, run, run, ih, RoutineRun.andRun_after]
  | call g propagate body ending next _ ih =>
      rw [append]
      by_cases hunused : gs.table g = .unused
      · rw [run_call_unused hunused, run_call_unused hunused, resume_append (ih _),
          RoutineRun.andRun_after]
      · rw [run_call_of_used hunused, run_call_of_used hunused, ih, RoutineRun.andRun_after]
  | load g propagate timeout next ih =>
      rw [append, run_load, run_load, resume_append (ih _), RoutineRun.andRun_after]
  | threads g count ending next ih =>
      rw [append, run_threads, run_threads, ih, RoutineRun.andRun_after]

/-- A gate that is used before a run is after it what it was. -/
theorem table_run_of_used (p : Routine) {gs : Gates} {g : Nat} (hused : gs.table g ≠ .unused) :
    (p.run gs).gates.table g = gs.table g := by
  obtain ⟨_, h⟩ := p.exists_ledger_run gs
  exact (h.idle g (h.not_mem_of_used hused)).2

end Routine

theorem Gate.ne_unused_of_eq_completed {gate : Gate} {failed : Bool} (h : gate = .completed failed) :
    gate ≠ .unused :=
  ne_unused_of_isCompleted (congrArg isCompleted h)

/-! ## Nests -/

/-- What is done before a call at one level of a nest, and the gate that is called. -/
structure Approach where
  earlier : Routine
  gate : Nat
  deriving DecidableEq, Repr

/-- A call at one level of a nest: what is done before and behind it in the same list of steps, whether it
    propagates a failure, and how its closure ends after its steps. -/
structure Tier extends Approach where
  propagate : Bool
  ending : Ending
  later : Routine
  deriving DecidableEq, Repr

/-- The steps of a level around the steps of the closure of its call. -/
def Tier.around (l : Tier) (body : Routine) : Routine :=
  l.earlier.append (.call l.gate l.propagate body l.ending l.later)

/-- Calls in closures, the outermost first, with the steps of the innermost closure. -/
def Routine.nest : List Tier → Routine → Routine
  | [], core => core
  | l :: tiers, core => l.around (nest tiers core)

/-- The tiers without what comes behind the calls. -/
def approaches (tiers : List Tier) : List Approach := tiers.map Tier.toApproach

/-! ## The way down -/

namespace Approach

/-- The run of the steps before the call. -/
def before (a : Approach) (gs : Gates) : RoutineRun := a.earlier.run gs

/-- The gates when the closure starts. -/
def started (a : Approach) (gs : Gates) : Gates := (a.before gs).gates.setGate a.gate .running

end Approach

/-- All closures of a nest start: no steps before a call end with a failure, and every gate is unused when
    its call is reached. -/
inductive Reached : List Approach → Gates → Prop where
  | nil {gs : Gates} : Reached [] gs
  | cons {a : Approach} {as : List Approach} {gs : Gates}
      (hok : (a.before gs).outcome.isFailure = false)
      (hunused : (a.before gs).gates.table a.gate = .unused) (hrest : Reached as (a.started gs)) :
      Reached (a :: as) gs

/-- The gates at the start of the innermost closure. -/
def bottom : List Approach → Gates → Gates
  | [], gs => gs
  | a :: as, gs => bottom as (a.started gs)

/-- What happens until the innermost closure starts. -/
def descent : List Approach → Gates → Trace RoutineEntry
  | [], _ => []
  | a :: as, gs =>
    (a.before gs).trace ++ .entry ⟨.started, a.gate, a.started gs⟩ :: descent as (a.started gs)

/-- A gate that is called in a nest is `unused` before. -/
theorem Reached.unused {as : List Approach} {gs : Gates} (h : Reached as gs) :
    ∀ a ∈ as, gs.table a.gate = .unused := by
  induction h with
  | nil => exact List.forall_mem_nil _
  | @cons a as gs _ hunused _ ih =>
      -- a gate that is used stays as it is, so that it would be used when its call is reached
      have hbefore : ∀ g, (a.before gs).gates.table g = .unused → gs.table g = .unused := by
        intro g hg
        by_contra hused
        rw [Approach.before, Routine.table_run_of_used _ hused] at hg
        exact hused hg
      refine List.forall_mem_cons.mpr ⟨hbefore _ hunused, fun b hb => ?_⟩
      have hb := ih b hb
      by_cases hgate : b.gate = a.gate
      · rw [Approach.started, hgate, Gates.table_setGate, Table.set_same] at hb
        cases hb
      · rw [Approach.started, Gates.table_setGate, Table.set_other _ _ hgate] at hb
        exact hbefore _ hb

/-- The gate of a level is none of those of the tiers inside. -/
theorem Reached.gate_ne {a : Approach} {as : List Approach} {gs : Gates} (h : Reached (a :: as) gs) :
    ∀ b ∈ as, b.gate ≠ a.gate := by
  cases h with
  | cons _ _ hrest =>
      intro b hb hgate
      have hunused := hrest.unused b hb
      rw [Approach.started, hgate, Gates.table_setGate, Table.set_same] at hunused
      cases hunused

/-- The gates of a nest are distinct. -/
theorem Reached.nodup {as : List Approach} {gs : Gates} (h : Reached as gs) :
    (as.map Approach.gate).Nodup := by
  induction h with
  | nil => exact List.nodup_nil
  | cons hok hunused hrest ih =>
      have hne := (Reached.cons hok hunused hrest).gate_ne
      rw [List.map_cons, List.nodup_cons, List.mem_map]
      refine ⟨?_, ih⟩
      rintro ⟨b, hb, hgate⟩
      exact hne b hb hgate

/-- **Without steps before the calls `Reached` says that the gates are distinct and unused.** -/
theorem reached_iff {as : List Approach} (hnothing : ∀ a ∈ as, a.earlier = .done) (gs : Gates) :
    Reached as gs ↔ (as.map Approach.gate).Nodup ∧ ∀ a ∈ as, gs.table a.gate = .unused := by
  constructor
  · intro h
    exact ⟨h.nodup, h.unused⟩
  · rintro ⟨hnodup, hunused⟩
    induction as generalizing gs with
    | nil => exact .nil
    | cons a as ih =>
        obtain ⟨hdone, hnothing⟩ := List.forall_mem_cons.mp hnothing
        obtain ⟨hunused, hothers⟩ := List.forall_mem_cons.mp hunused
        rw [List.map_cons, List.nodup_cons] at hnodup
        have hbefore : a.before gs = ⟨gs, [], .ok⟩ := by
          unfold Approach.before
          rw [hdone]
          rfl
        refine .cons (by rw [hbefore]; rfl) (by rw [hbefore]; exact hunused) ?_
        refine ih hnothing _ hnodup.2 fun b hb => ?_
        have hne : b.gate ≠ a.gate := fun hgate =>
          hnodup.1 (hgate ▸ List.mem_map_of_mem hb)
        rw [Approach.started, hbefore, Gates.table_setGate, Table.set_other _ _ hne]
        exact hothers b hb

/-! ## Whole nests -/

namespace Tier

/-- How the closure of a level ends when its steps have been run. -/
def outcome (l : Tier) (inner : RoutineRun) : Outcome := inner.outcome.andThen l.ending.outcome

/-- The gates when the closure of a level has ended. -/
def closed (l : Tier) (inner : RoutineRun) : Gates :=
  inner.gates.setGate l.gate (.completed (l.outcome inner).isFailure)

/-- The return of the call of a level. -/
def returned (l : Tier) (inner : RoutineRun) : RoutineEntry :=
  ⟨.called (l.outcome inner) true, l.gate, l.closed inner⟩

/-- What happens at a level when the steps of its closure have been run: the closure ends, its gate is
    closed, the call returns, and the steps behind it follow unless it propagates a failure. -/
def finish (l : Tier) (inner : RoutineRun) : RoutineRun :=
  (l.later.resume l.propagate (l.outcome inner) (l.closed inner)).after
    (inner.trace ++ Trace.returning (l.outcome inner) (l.returned inner))

/-- `finish` does not change what has happened before the innermost closure. -/
theorem finish_after (l : Tier) (earlier : Trace RoutineEntry) (r : RoutineRun) :
    l.finish (r.after earlier) = (l.finish r).after earlier := by
  unfold finish
  rw [RoutineRun.after_after, RoutineRun.trace_after, List.append_assoc]
  rfl

/-- `run` of one level of a nest: its steps before the call, the closure, and `finish`. -/
theorem run_around {l : Tier} {gs : Gates} (hok : (l.before gs).outcome.isFailure = false)
    (hunused : (l.before gs).gates.table l.gate = .unused) (body : Routine) :
    (l.around body).run gs =
      (l.finish (body.run (l.started gs))).after
        ((l.before gs).trace ++ [.entry ⟨.started, l.gate, l.started gs⟩]) := by
  have hsteps : (l.around body).run gs =
      ((Routine.call l.gate l.propagate body l.ending l.later).run (l.before gs).gates).after
        (l.before gs).trace := (Routine.run_append _ _ gs).trans (RoutineRun.andRun_of_ok hok _)
  rw [hsteps, Routine.run_call_eq_after hunused rfl rfl, RoutineRun.after_after]
  unfold finish
  rw [RoutineRun.after_after]
  simp only [List.append_assoc]
  rfl

end Tier

/-- **`run` of a nest goes down to its innermost closure, runs the steps of it, and finishes one level after
    the other.** -/
theorem Routine.run_nest {tiers : List Tier} {gs : Gates} (h : Reached (approaches tiers) gs)
    (core : Routine) :
    (nest tiers core).run gs =
      (tiers.foldr Tier.finish (core.run (bottom (approaches tiers) gs))).after
        (descent (approaches tiers) gs) := by
  induction tiers generalizing gs with
  | nil => rfl
  | cons l tiers ih =>
      cases h with
      | cons hok hunused hrest =>
          have hdescent : descent (approaches (l :: tiers)) gs = ((l.before gs).trace ++
              [.entry ⟨.started, l.gate, l.started gs⟩]) ++ descent (approaches tiers) (l.started gs) := by
            rw [List.append_assoc]
            rfl
          have hinner : (nest tiers core).run (l.started gs) = _ := ih hrest
          rw [nest, Tier.run_around hok hunused, hinner, Tier.finish_after, RoutineRun.after_after,
            hdescent]
          rfl

/-! ## The way out of a failure -/

theorem Outcome.andThen_of_failure {x : Outcome} (h : x.isFailure = true) (y : Outcome) :
    x.andThen y = x := by
  unfold andThen
  rw [if_pos h]

/-- The gates when all gates of a nest have been closed as failed. -/
def failAll : List Approach → Gates → Gates
  | [], gs => gs
  | a :: as, gs => (failAll as gs).setGate a.gate (.completed true)

/-- The returns of all calls of a nest with outcome `x`, the innermost first. -/
def failedReturns (x : Outcome) : List Approach → Gates → List RoutineEntry
  | [], _ => []
  | a :: as, gs => failedReturns x as gs ++ [⟨.called x true, a.gate, failAll (a :: as) gs⟩]

/-- What happens when a failure leaves a nest. -/
def ascent (x : Outcome) (as : List Approach) (gs : Gates) : Trace RoutineEntry :=
  (failedReturns x as gs).flatMap (Trace.returning x)

theorem ascent_cons (x : Outcome) (a : Approach) (as : List Approach) (gs : Gates) :
    ascent x (a :: as) gs =
      ascent x as gs ++ Trace.returning x ⟨.called x true, a.gate, failAll (a :: as) gs⟩ := by
  rw [ascent, failedReturns, List.flatMap_append, List.flatMap_singleton]
  rfl

/-- All calls of a nest return with the failure `x`, from the innermost to the outermost: right before its
    return each of them has logged a warning that says what kind of failure it is, and its gate has failed. -/
structure PassedOn (x : Outcome) (as : List Approach) (t : Trace RoutineEntry) (after : Gates) : Prop where
  calls : (t.grouped []).map (fun r => (r.value.gate, r.value.note, r.events)) =
    as.reverse.map fun a => (a.gate, .called x true, x.events)
  log : ∃ e, e.level = .warn ∧ t.events = List.replicate as.length e ∧
    ((∃ message, x = .error message ∧ e = .gateFailed) ∨
      ∃ message, x = .panic message ∧ e = .gatePanicked)
  gates : ∀ a ∈ as, after.table a.gate = .completed true

theorem failAll_gates {as : List Approach} {a : Approach} (ha : a ∈ as) (gs : Gates) :
    (failAll as gs).table a.gate = .completed true := by
  induction as with
  | nil => cases ha
  | cons b as ih =>
      rw [failAll, Gates.table_setGate]
      by_cases hgate : a.gate = b.gate
      · rw [hgate, Table.set_same]
      · rw [Table.set_other _ _ hgate]
        rcases List.mem_cons.mp ha with rfl | ha
        · exact absurd rfl hgate
        · exact ih ha

/-- `Trace.grouped` of returns, each with the failure logged before it. -/
theorem grouped_flatMap_returning {x : Outcome} {e : Event} (hevents : x.events = [e])
    (entries : List RoutineEntry) :
    (Trace.grouped [] (entries.flatMap (Trace.returning x))) = entries.map fun a => ⟨a, x.events⟩ := by
  induction entries with
  | nil => rfl
  | cons a entries ih =>
      rw [List.flatMap_cons, Trace.returning, hevents, List.map_cons, ← hevents, ← ih, hevents]
      rfl

theorem failedReturns_calls (x : Outcome) (as : List Approach) (gs : Gates) :
    (failedReturns x as gs).map (fun e => (e.gate, e.note)) =
      as.reverse.map fun a => (a.gate, .called x true) := by
  induction as with
  | nil => rfl
  | cons a as ih =>
      rw [failedReturns, List.map_append, ih, List.reverse_cons, List.map_append]
      rfl

theorem Outcome.events_of_failure {x : Outcome} (h : x.isFailure = true) :
    ∃ e, x.events = [e] ∧ e.level = .warn ∧
      ((∃ message, x = .error message ∧ e = .gateFailed) ∨
        ∃ message, x = .panic message ∧ e = .gatePanicked) := by
  cases x with
  | ok => cases h
  | error message => exact ⟨.gateFailed, rfl, rfl, .inl ⟨message, rfl, rfl⟩⟩
  | panic message => exact ⟨.gatePanicked, rfl, rfl, .inr ⟨message, rfl, rfl⟩⟩

theorem passedOn_ascent {x : Outcome} (h : x.isFailure = true) (as : List Approach) (gs : Gates) :
    PassedOn x as (ascent x as gs) (failAll as gs) := by
  obtain ⟨e, hevents, hlevel, hkind⟩ := x.events_of_failure h
  refine ⟨?_, ⟨e, hlevel, ?_, hkind⟩, fun a ha => failAll_gates ha gs⟩
  · have hcalls := congrArg (List.map fun c => (c.1, c.2, x.events)) (failedReturns_calls x as gs)
    rw [List.map_map, List.map_map] at hcalls
    rw [ascent, grouped_flatMap_returning hevents, List.map_map]
    exact hcalls
  · induction as with
    | nil => rfl
    | cons a as ih =>
        rw [ascent_cons, Trace.events_append, ih, Trace.events_returning, hevents, List.length_cons,
          List.replicate_succ']

/-! ## Levels that a failure passes -/

/-- How the innermost closure of a nest ends after its steps. -/
def innermostEnding (tiers : List Tier) : Ending := (tiers.getLast?.map Tier.ending).getD .ok

namespace Tier

section

variable {l : Tier} {gs : Gates} {t : Trace RoutineEntry} {x : Outcome}

theorem outcome_of_failure (hfailure : x.isFailure = true) : l.outcome ⟨gs, t, x⟩ = x :=
  Outcome.andThen_of_failure hfailure _

theorem closed_of_failure (hfailure : x.isFailure = true) :
    l.closed ⟨gs, t, x⟩ = gs.setGate l.gate (.completed true) := by
  rw [closed, outcome_of_failure hfailure, hfailure]

/-- **`finish` of a level that propagates does nothing with a failure but close its gate, log it and pass it
    on.** -/
theorem finish_of_failure (hpropagate : l.propagate = true) (hfailure : x.isFailure = true) :
    l.finish ⟨gs, t, x⟩ =
      ⟨gs.setGate l.gate (.completed true),
        t ++ Trace.returning x ⟨.called x true, l.gate, gs.setGate l.gate (.completed true)⟩, x⟩ := by
  rw [finish, returned, outcome_of_failure hfailure, closed_of_failure hfailure, Routine.after_resume,
    hpropagate, hfailure]
  rfl

/-- `finish` of a level that does not propagate closes its gate and logs the failure too, but then goes on
    with the steps behind its call. -/
theorem finish_of_caught (hpropagate : l.propagate = false) (hfailure : x.isFailure = true) :
    l.finish ⟨gs, t, x⟩ =
      (l.later.run (gs.setGate l.gate (.completed true))).after
        (t ++ Trace.returning x ⟨.called x true, l.gate, gs.setGate l.gate (.completed true)⟩) := by
  rw [finish, returned, outcome_of_failure hfailure, closed_of_failure hfailure, Routine.after_resume,
    hpropagate]
  rfl

end

/-- Levels that all propagate pass a failure on. -/
theorem foldr_finish_of_failure {tiers : List Tier} (hpropagate : ∀ l ∈ tiers, l.propagate = true)
    {x : Outcome} (hfailure : x.isFailure = true) (gs : Gates) (t : Trace RoutineEntry) :
    tiers.foldr finish ⟨gs, t, x⟩ =
      ⟨failAll (approaches tiers) gs, t ++ ascent x (approaches tiers) gs, x⟩ := by
  induction tiers with
  | nil =>
      have hnothing : ascent x (approaches []) gs = [] := rfl
      rw [hnothing, List.append_nil]
      rfl
  | cons l tiers ih =>
      obtain ⟨hl, htiers⟩ := List.forall_mem_cons.mp hpropagate
      have hascent := ascent_cons x l.toApproach (approaches tiers) gs
      rw [List.foldr_cons, ih htiers, finish_of_failure hl hfailure, List.append_assoc]
      exact congrArg (fun u => RoutineRun.mk _ (t ++ u) x) hascent.symm

theorem foldr_finish_after (tiers : List Tier) (earlier : Trace RoutineEntry) (r : RoutineRun) :
    tiers.foldr finish (r.after earlier) = (tiers.foldr finish r).after earlier := by
  induction tiers with
  | nil => rfl
  | cons l tiers ih => rw [List.foldr_cons, ih, finish_after, List.foldr_cons]

/-- What the innermost closure ends with counts, not whether its steps or its own end have failed. -/
theorem foldr_finish_of_outcome {tiers : List Tier} {r : RoutineRun} {x : Outcome}
    (hx : r.outcome.andThen (innermostEnding tiers).outcome = x) (hfailure : x.isFailure = true) :
    tiers.foldr finish r = tiers.foldr finish { r with outcome := x } := by
  rcases tiers.eq_nil_or_concat with rfl | ⟨init, last, rfl⟩
  · -- without a level there is no end after the steps
    have houtcome : r.outcome = x := by
      cases hr : r.outcome with
      | ok => rw [hr] at hx; rw [← hx] at hfailure; cases hfailure
      | error message => rw [hr] at hx; exact hx
      | panic message => rw [hr] at hx; exact hx
    rw [← houtcome]
  · rw [List.concat_eq_append] at hx ⊢
    have hending : innermostEnding (init ++ [last]) = last.ending := by
      rw [innermostEnding, List.getLast?_concat]
      rfl
    have hsame : last.outcome { r with outcome := x } = last.outcome r := by
      rw [hending] at hx
      rw [outcome, outcome, hx]
      exact Outcome.andThen_of_failure hfailure _
    have hfinish : last.finish r = last.finish { r with outcome := x } := by
      unfold finish returned closed
      rw [hsame]
    rw [List.foldr_append, List.foldr_append, List.foldr_cons, List.foldr_cons, List.foldr_nil,
      List.foldr_nil, hfinish]

/-! ### What stays behind a level -/

theorem table_finish_of_used {l : Tier} {r : RoutineRun} {g : Nat}
    (hused : (l.closed r).table g ≠ .unused) : (l.finish r).gates.table g = (l.closed r).table g := by
  show (l.later.resume l.propagate (l.outcome r) (l.closed r)).gates.table g = _
  unfold Routine.resume
  split
  · rfl
  · exact l.later.table_run_of_used hused

/-- A used gate of no level is left alone by `finish`. -/
theorem table_foldr_finish_of_used {tiers : List Tier} {r : RoutineRun} {g : Nat}
    (hother : ∀ l ∈ tiers, l.gate ≠ g) (hused : r.gates.table g ≠ .unused) :
    (tiers.foldr finish r).gates.table g = r.gates.table g := by
  induction tiers with
  | nil => rfl
  | cons l tiers ih =>
      obtain ⟨hne, hother⟩ := List.forall_mem_cons.mp hother
      have hsame := ih hother
      have hclosed : (l.closed (tiers.foldr finish r)).table g = r.gates.table g := by
        rw [closed, Gates.table_setGate, Table.set_other _ _ (Ne.symm hne), hsame]
      rw [List.foldr_cons, table_finish_of_used (hclosed ▸ hused), hclosed]

/-- The levels outside of a run add to its record. -/
theorem exists_trace_foldr_finish (tiers : List Tier) (r : RoutineRun) :
    ∃ more, (tiers.foldr finish r).trace = r.trace ++ more := by
  induction tiers with
  | nil => exact ⟨[], (List.append_nil _).symm⟩
  | cons l tiers ih =>
      obtain ⟨more, hmore⟩ := ih
      rw [List.foldr_cons, finish, RoutineRun.trace_after, hmore, List.append_assoc, List.append_assoc]
      exact ⟨_, rfl⟩

/-- The closure of a level completes according to a run of the rest of its steps and its own end: its call
    returns so, once a failure has been logged, and the gate has failed or not. -/
structure CompletesAfter (l : Tier) (rest whole : RoutineRun) : Prop where
  gate : whole.gates.table l.gate = .completed (l.outcome rest).isFailure
  call : ∃ before state later, whole.trace =
    before ++ Trace.returning (l.outcome rest) ⟨.called (l.outcome rest) true, l.gate, state⟩ ++ later

theorem completesAfter_foldr {front : List Tier} {l : Tier} (hother : ∀ k ∈ front, k.gate ≠ l.gate)
    (rest : RoutineRun) (earlier : Trace RoutineEntry) :
    l.CompletesAfter rest ((front.foldr finish (l.finish rest)).after earlier) := by
  have hclosed : (l.closed rest).table l.gate = .completed (l.outcome rest).isFailure :=
    Table.set_same _ _ _
  have hfinish : (l.finish rest).gates.table l.gate = .completed (l.outcome rest).isFailure :=
    (table_finish_of_used (Gate.ne_unused_of_eq_completed hclosed)).trans hclosed
  constructor
  · rw [RoutineRun.gates_after,
      table_foldr_finish_of_used hother (Gate.ne_unused_of_eq_completed hfinish), hfinish]
  · obtain ⟨more, hmore⟩ := exists_trace_foldr_finish front (l.finish rest)
    refine ⟨earlier ++ rest.trace, l.closed rest,
      (l.later.resume l.propagate (l.outcome rest) (l.closed rest)).trace ++ more, ?_⟩
    rw [RoutineRun.trace_after, hmore, finish, RoutineRun.trace_after]
    simp only [List.append_assoc]
    rfl

end Tier

/-! ## Failures in nests -/

/-- The run of the steps of the innermost closure. -/
def Routine.runInside (core : Routine) (tiers : List Tier) (gs : Gates) : RoutineRun :=
  core.run (bottom (approaches tiers) gs)

/-- All closures of a nest start, and the innermost one ends with the failure `x`. -/
structure FailsInside (tiers : List Tier) (core : Routine) (gs : Gates) (x : Outcome) : Prop where
  reached : Reached (approaches tiers) gs
  outcome : core.closureOutcome (innermostEnding tiers) (bottom (approaches tiers) gs) = x
  failure : x.isFailure = true

/-- The gates of outer levels are none of those of the levels inside. -/
theorem Reached.outer_ne {outer rest : List Tier} {gs : Gates}
    (h : Reached (approaches (outer ++ rest)) gs) : ∀ l ∈ outer, ∀ k ∈ rest, l.gate ≠ k.gate := by
  have hnodup := h.nodup
  rw [approaches, List.map_map, List.map_append, List.nodup_append] at hnodup
  intro l hl k hk
  exact hnodup.2.2 _ (List.mem_map_of_mem hl) _ (List.mem_map_of_mem hk)

namespace FailsInside

variable {tiers : List Tier} {core : Routine} {gs : Gates} {x : Outcome}

/-- `run` of a nest depends on the steps of the innermost closure only through how this closure ends. -/
theorem run_eq (h : FailsInside tiers core gs x) :
    (Routine.nest tiers core).run gs =
      (tiers.foldr Tier.finish
        ⟨(core.runInside tiers gs).gates, (core.runInside tiers gs).trace, x⟩).after
          (descent (approaches tiers) gs) := by
  rw [Routine.run_nest h.reached, Tier.foldr_finish_of_outcome h.outcome h.failure]
  rfl

/-- **A failure that all levels propagate ends the run.** -/
theorem run_of_propagate (h : FailsInside tiers core gs x) (hpropagate : ∀ l ∈ tiers, l.propagate = true) :
    (Routine.nest tiers core).run gs =
      ⟨failAll (approaches tiers) (core.runInside tiers gs).gates,
        descent (approaches tiers) gs ++ (core.runInside tiers gs).trace ++
          ascent x (approaches tiers) (core.runInside tiers gs).gates, x⟩ := by
  rw [h.run_eq, Tier.foldr_finish_of_failure hpropagate h.failure, List.append_assoc]
  rfl

section Caught

variable {outer inside : List Tier} {l : Tier}

/-- **A failure that a level does not propagate is at an end there**, and the steps behind its call follow. -/
theorem run_of_caught (h : FailsInside (outer ++ l :: inside) core gs x) (hcaught : l.propagate = false)
    (hpropagate : ∀ k ∈ inside, k.propagate = true) :
    (Routine.nest (outer ++ l :: inside) core).run gs =
      (outer.foldr Tier.finish (l.later.run (failAll (approaches (l :: inside))
        (core.runInside (outer ++ l :: inside) gs).gates))).after
          (descent (approaches (outer ++ l :: inside)) gs ++
            (core.runInside (outer ++ l :: inside) gs).trace ++
            ascent x (approaches (l :: inside)) (core.runInside (outer ++ l :: inside) gs).gates) := by
  have hascent := ascent_cons x l.toApproach (approaches inside)
    (core.runInside (outer ++ l :: inside) gs).gates
  rw [h.run_eq, List.foldr_append, List.foldr_cons,
    Tier.foldr_finish_of_failure hpropagate h.failure, Tier.finish_of_caught hcaught h.failure,
    Tier.foldr_finish_after, RoutineRun.after_after, List.append_assoc, List.append_assoc]
  exact congrArg (fun u => RoutineRun.after (_ ++ (_ ++ u)) _) hascent.symm

/-- The gates that a failure has passed stay failed, whatever is run outside. -/
theorem gates_of_caught (h : FailsInside (outer ++ l :: inside) core gs x) (hcaught : l.propagate = false)
    (hpropagate : ∀ k ∈ inside, k.propagate = true) :
    ∀ k ∈ l :: inside,
      ((Routine.nest (outer ++ l :: inside) core).run gs).gates.table k.gate = .completed true := by
  intro k hk
  have hseen : k.toApproach ∈ approaches (l :: inside) := List.mem_map_of_mem hk
  have hclosed := failAll_gates hseen (core.runInside (outer ++ l :: inside) gs).gates
  have hlater := l.later.table_run_of_used (Gate.ne_unused_of_eq_completed hclosed)
  have hcompleted := hlater.trans hclosed
  rw [h.run_of_caught hcaught hpropagate, RoutineRun.gates_after,
    Tier.table_foldr_finish_of_used (fun j hj => h.reached.outer_ne j hj k hk)
      (Gate.ne_unused_of_eq_completed hcompleted)]
  exact hcompleted

end Caught

end FailsInside

/-- **A failure passes through a nest as it is, up to a level that does not propagate it.** Let all closures of
    a nest start, which without steps before the calls is to say that the gates are distinct and unused, and
    let the innermost closure end with a failure. If all levels propagate, then from the innermost call to
    the outermost one all calls return with this failure, each logged once, all gates have failed, nothing
    else happens, and the run ends with the failure; what the steps behind the calls and the own ends of
    the outer closures are does not matter. If a level does not propagate, and all levels inside do, this is
    so up to that level. Then the steps behind its call are run, and every level outside completes
    according to the rest of its steps and its own end. -/
theorem Routine.nest_failure :
    (∀ (as : List Approach) (gs : Gates), (∀ a ∈ as, a.earlier = .done) →
      (Reached as gs ↔ (as.map Approach.gate).Nodup ∧ ∀ a ∈ as, gs.table a.gate = .unused)) ∧
    ∀ (tiers : List Tier) (core : Routine) (gs : Gates) (x : Outcome), FailsInside tiers core gs x →
      ((∀ l ∈ tiers, l.propagate = true) →
        (nest tiers core).run gs =
          ⟨failAll (approaches tiers) (core.runInside tiers gs).gates,
            descent (approaches tiers) gs ++ (core.runInside tiers gs).trace ++
              ascent x (approaches tiers) (core.runInside tiers gs).gates, x⟩ ∧
        PassedOn x (approaches tiers) (ascent x (approaches tiers) (core.runInside tiers gs).gates)
          ((nest tiers core).run gs).gates ∧
        ∀ tiers', approaches tiers' = approaches tiers → innermostEnding tiers' = innermostEnding tiers →
          (∀ l ∈ tiers', l.propagate = true) → (nest tiers' core).run gs = (nest tiers core).run gs) ∧
      ∀ outer l inside, tiers = outer ++ l :: inside → l.propagate = false →
        (∀ k ∈ inside, k.propagate = true) →
        ∃ closed, closed = failAll (approaches (l :: inside)) (core.runInside tiers gs).gates ∧
          PassedOn x (approaches (l :: inside))
            (ascent x (approaches (l :: inside)) (core.runInside tiers gs).gates) closed ∧
          (nest tiers core).run gs =
            (outer.foldr Tier.finish (l.later.run closed)).after
              (descent (approaches tiers) gs ++ (core.runInside tiers gs).trace ++
                ascent x (approaches (l :: inside)) (core.runInside tiers gs).gates) ∧
          (∀ k ∈ l :: inside, ((nest tiers core).run gs).gates.table k.gate = .completed true) ∧
          ∀ front k back, outer = front ++ k :: back →
            k.CompletesAfter (back.foldr Tier.finish (l.later.run closed)) ((nest tiers core).run gs) := by
  refine ⟨fun as gs hnothing => reached_iff hnothing gs, ?_⟩
  intro tiers core gs x h
  constructor
  · intro hpropagate
    have hrun := h.run_of_propagate hpropagate
    refine ⟨hrun, ?_, ?_⟩
    · rw [hrun]
      exact passedOn_ascent h.failure _ _
    · intro tiers' happroaches hending hpropagate'
      have h' : FailsInside tiers' core gs x :=
        ⟨happroaches ▸ h.reached, by rw [happroaches, hending]; exact h.outcome, h.failure⟩
      rw [h'.run_of_propagate hpropagate', hrun, runInside, runInside, happroaches]
  · rintro outer l inside rfl hcaught hpropagate
    have hrun := h.run_of_caught hcaught hpropagate
    refine ⟨_, rfl, passedOn_ascent h.failure _ _, hrun, h.gates_of_caught hcaught hpropagate, ?_⟩
    rintro front k back rfl
    have hreached := h.reached
    rw [List.append_assoc] at hreached
    rw [hrun, List.foldr_append, List.foldr_cons]
    exact Tier.completesAfter_foldr (fun j hj => hreached.outer_ne j hj k List.mem_cons_self) _ _

/-- Three closures in each other, with a look at a gate behind each of the outer calls. The closure in the
    middle would end with an error of its own. -/
def threeDeep (middle : Bool) : List Tier :=
  [⟨⟨.done, 0⟩, true, .ok, .query 2 .done⟩,
    ⟨⟨.done, 1⟩, middle, .error "not ready".toList, .query 0 .done⟩,
    ⟨⟨.done, 2⟩, true, .panic "no route".toList, .done⟩]

theorem failsInside_threeDeep (middle : Bool) :
    FailsInside (threeDeep middle) .done .initial (.panic "no route".toList) where
  reached := by
    refine (reached_iff ?_ .initial).mpr ⟨?_, fun _ _ => rfl⟩
    · simp [approaches, threeDeep]
    · simp [approaches, threeDeep]
  outcome := rfl
  failure := rfl

/-- A panic passes all three calls; if the call in the middle does not propagate it, the outermost closure
    ends well. -/
theorem Routine.nest_failure_threeDeep :
    ((nest (threeDeep true) .done).run .initial).outcome = .panic "no route".toList ∧
    PassedOn (.panic "no route".toList) (approaches (threeDeep true))
      (ascent (.panic "no route".toList) (approaches (threeDeep true))
        (done.runInside (threeDeep true) .initial).gates)
      ((nest (threeDeep true) .done).run .initial).gates ∧
    ((nest (threeDeep false) .done).run .initial).gates.table 2 = .completed true ∧
    ((nest (threeDeep false) .done).run .initial).gates.table 0 = .completed false := by
  obtain ⟨-, hnest⟩ := nest_failure
  have hpropagate : ∀ l ∈ threeDeep true, l.propagate = true := by simp [threeDeep]
  obtain ⟨hrun, hpassed, -⟩ := (hnest _ _ _ _ (failsInside_threeDeep true)).1 hpropagate
  obtain ⟨_, -, -, -, hgates, hcompletes⟩ :=
    (hnest _ _ _ _ (failsInside_threeDeep false)).2 [_] _ [_] rfl rfl (by simp)
  refine ⟨?_, hpassed, ?_, ?_⟩
  · rw [hrun]
  · exact hgates _ (List.mem_cons_of_mem _ List.mem_cons_self)
  · exact (hcompletes [] _ [] rfl).gate

end NetKit
