import Mathlib.Data.Finset.Card
import NetKit.Proofs.Gate.Life

/-!
# Deliveries — the failure of a closure reaches one call, and the log once

A closure that fails is behind one gate and was executed by one call. Its failure is logged once, and then
comes out of this call; every other call of the gate succeeds, whether it comes earlier, later or from
another thread. If the call propagates, the failure also becomes that of the closure around it. This is a new
failure, of another gate, which is logged and delivered in its turn.

A `Ledger` of a stretch of a run lists the closures that were executed in it, in the order of their ends, with
how each has ended. Two stretches in a row have their two ledgers in a row (`Ledger.append`): a gate of the
first has been used before the second begins, so that it is in one of them only. What a closure adds to the
ledger of its own steps is itself (`Ledger.around`): its gate is not in there, since it was running.

## Contents
- `Routine.Within`: the steps of a routine, at any depth.
- `Gates.load_outcome`, `Outcome.events_first`: what the calls of a step come to.
- `RoutineNote.Idle`, `Trace.IdleOn`: steps that execute nothing and succeed.
- `Execution`, `Delivered`: one closure, from its start to the return of its call, in a longer run.
- `Ended`, `Ledger`: all closures of a stretch of a run; `Routine.exists_ledger_run`: every run has one.
- `Routine.failure_delivered_once`: failing calls, events and failed gates.
-/

namespace NetKit

/-! ## Steps of a routine -/

/-- What is left of a `Routine`, or of a closure in it, from one of its steps on. -/
inductive Routine.Within : Routine → Routine → Prop where
  | self {p : Routine} : Within p p
  | query {q next : Routine} {g : Nat} (h : Within q next) : Within q (.query g next)
  | body {q body next : Routine} {g : Nat} {propagate : Bool} {ending : Ending} (h : Within q body) :
      Within q (.call g propagate body ending next)
  | call {q body next : Routine} {g : Nat} {propagate : Bool} {ending : Ending} (h : Within q next) :
      Within q (.call g propagate body ending next)
  | load {q next : Routine} {g : Nat} {propagate : Bool} {timeout : Text} (h : Within q next) :
      Within q (.load g propagate timeout next)
  | threads {q next : Routine} {g count : Nat} {ending : Ending} (h : Within q next) :
      Within q (.threads g count ending next)

theorem Routine.Within.trans {o p q : Routine} (h : Within o q) (h' : Within q p) : Within o p := by
  induction h' with
  | self => exact h
  | query _ ih => exact .query ih
  | body _ ih => exact .body ih
  | call _ ih => exact .call ih
  | load _ ih => exact .load ih
  | threads _ ih => exact .threads ih

/-! ## Calls -/

theorem Gates.load_outcome {gs : Gates} {g : Nat} (hunused : gs.table g = .unused) (timeout : Text) :
    (gs.load g timeout).2 = .ofExcept (loadTimeout timeout) := by
  unfold load
  rw [hunused]
  cases loadTimeout timeout <;> rfl

/-- Of several calls only the first logs anything. -/
theorem Outcome.events_first {τ : Type} (closure : Outcome) (first : τ) (others : List τ) :
    ((first, true, closure) :: others.map fun thread => (thread, false, Outcome.ok)).flatMap
      (fun r => r.2.2.events) = closure.events := by
  rw [List.flatMap_cons, List.flatMap_map]
  have hothers : (others.flatMap fun _ => Outcome.ok.events) = [] :=
    List.flatMap_eq_nil_iff.mpr fun _ _ => rfl
  rw [hothers, List.append_nil]

/-! ## Idle steps -/

/-- A step that has executed no closure and in which every call has succeeded. -/
inductive RoutineNote.Idle : RoutineNote → Prop where
  | queried : Idle .queried
  | called : Idle (.called .ok false)
  | loaded : Idle (.loaded .ok)
  | threaded (count : Nat) : Idle (.threaded ⟨0, count, 0, 0⟩)

/-- How many calls the note shows to have failed. -/
def RoutineNote.failures : RoutineNote → Nat
  | started => 0
  | queried => 0
  | called outcome _ => outcome.isFailure.toNat
  | loaded outcome => outcome.isFailure.toNat
  | threaded tally => tally.errors + tally.panics

theorem RoutineNote.Idle.failures {note : RoutineNote} (h : note.Idle) : note.failures = 0 := by
  cases h <;> rfl

/-- How many calls of gate `g` the entry shows to have failed. -/
def RoutineEntry.failures (g : Nat) (e : RoutineEntry) : Nat :=
  if e.gate = g then e.note.failures else 0

/-- The sum of `RoutineEntry.failures`. -/
def RoutineEntry.sumFailures (g : Nat) : List RoutineEntry → Nat
  | [] => 0
  | e :: entries => e.failures g + sumFailures g entries

theorem RoutineEntry.sumFailures_append (g : Nat) (entries entries' : List RoutineEntry) :
    sumFailures g (entries ++ entries') = sumFailures g entries + sumFailures g entries' := by
  induction entries with
  | nil => simp [sumFailures]
  | cons e entries ih => simp [sumFailures, ih, Nat.add_assoc]

theorem RoutineEntry.sumFailures_of_idle {g : Nat} {entries : List RoutineEntry}
    (h : ∀ e ∈ entries, e.gate = g → e.note.Idle) : sumFailures g entries = 0 := by
  induction entries with
  | nil => rfl
  | cons e entries ih =>
      have hentries := ih fun e' he' => h e' (List.mem_cons_of_mem e he')
      rw [sumFailures, hentries, failures, Nat.add_zero]
      split
      · next hgate => exact (h e List.mem_cons_self hgate).failures
      · rfl

namespace Trace

variable {g : Nat} {t u : Trace RoutineEntry}

/-- All steps on gate `g` are `Idle`. -/
def IdleOn (g : Nat) (t : Trace RoutineEntry) : Prop :=
  ∀ e ∈ t.entries, e.gate = g → e.note.Idle

theorem idleOn_nil : IdleOn g [] := List.forall_mem_nil _

theorem IdleOn.append (ht : t.IdleOn g) (hu : u.IdleOn g) : (t ++ u).IdleOn g := by
  intro e he
  rw [entries_append, List.mem_append] at he
  exact he.elim (ht e) (hu e)

/-- Steps on one gate are `Idle` on the others. -/
theorem idleOn_of_other {k : Nat} (hgate : ∀ e ∈ t.entries, e.gate = k) (hne : g ≠ k) :
    t.IdleOn g :=
  fun e he h => absurd (h.symm.trans (hgate e he)) hne

/-- How many calls of gate `g` have failed. -/
def failures (g : Nat) (t : Trace RoutineEntry) : Nat := RoutineEntry.sumFailures g t.entries

theorem failures_append : (t ++ u).failures g = t.failures g + u.failures g := by
  rw [failures, entries_append, RoutineEntry.sumFailures_append]
  rfl

theorem IdleOn.failures (h : t.IdleOn g) : t.failures g = 0 := RoutineEntry.sumFailures_of_idle h

theorem failures_started (state : Gates) : failures g [.entry ⟨.started, g, state⟩] = 0 := by
  simp [failures, RoutineEntry.sumFailures, RoutineEntry.failures, RoutineNote.failures]

/-- A call that returns, once the failure of its closure has been logged. -/
def returning (outcome : Outcome) (e : RoutineEntry) : Trace RoutineEntry :=
  ofEvents outcome.events ++ [.entry e]

@[simp] theorem entries_returning (outcome : Outcome) (e : RoutineEntry) :
    (returning outcome e).entries = [e] := by
  simp [returning]

@[simp] theorem events_returning (outcome : Outcome) (e : RoutineEntry) :
    (returning outcome e).events = outcome.events := by
  rw [returning, events_append, events_ofEvents, events_entry]
  exact List.append_nil _

theorem failures_returning (outcome : Outcome) (note : RoutineNote) (state : Gates) :
    (returning outcome ⟨note, g, state⟩).failures g = note.failures := by
  simp [failures, RoutineEntry.sumFailures, RoutineEntry.failures]

end Trace

/-! ## One closure -/

/-- What happens from the start of a closure of gate `g` to the return of the call that executes it. The
    closure is that of a step of `p`, and `outcome` of the call is how the closure has ended. If it has
    failed, then this is logged right before the call returns. -/
inductive Execution (p : Routine) (g : Nat) (outcome : Outcome) : Trace RoutineEntry → Prop where
  /-- The steps of the closure come in between; those on the gate itself are idle. -/
  | called {propagate : Bool} {body next : Routine} {ending : Ending} {started : Gates}
      (hstep : Routine.Within (.call g propagate body ending next) p)
      (houtcome : body.closureOutcome ending started = outcome)
      (hidle : (body.run started).trace.IdleOn g) :
      Execution p g outcome
        ([.entry ⟨.started, g, started⟩] ++ (body.run started).trace ++
          Trace.returning outcome ⟨.called outcome true, g, Routine.closed g body ending started⟩)
  /-- The closure loads a timeout. -/
  | loaded {propagate : Bool} {timeout : Text} {next : Routine} {state : Gates}
      (hstep : Routine.Within (.load g propagate timeout next) p)
      (houtcome : .ofExcept (loadTimeout timeout) = outcome) :
      Execution p g outcome (Trace.returning outcome ⟨.loaded outcome, g, state⟩)
  /-- The closure is executed by the first of several threads, whichever this is; the calls of the others
  succeed. -/
  | threaded {count : Nat} {ending : Ending} {next : Routine} {tally : Tally} {state : Gates}
      (hstep : Routine.Within (.threads g count ending next) p) (hcount : 0 < count)
      (houtcome : ending.outcome = outcome)
      (htally : ∀ first others, (first :: others).Perm (List.range count) →
        tally = Tally.ofResults
          ((first, true, outcome) :: others.map fun thread => (thread, false, .ok))) :
      Execution p g outcome (Trace.returning outcome ⟨.threaded tally, g, state⟩)

/-- A run in which a closure of gate `g` is executed, and all other steps on the gate are `Idle`. -/
def Delivered (p : Routine) (g : Nat) (outcome : Outcome) (t : Trace RoutineEntry) : Prop :=
  ∃ before execution after, t = before ++ execution ++ after ∧ Execution p g outcome execution ∧
    before.IdleOn g ∧ after.IdleOn g

namespace Execution

variable {p q : Routine} {g : Nat} {outcome : Outcome} {t : Trace RoutineEntry}

theorem mono (h : Execution q g outcome t) (hq : q.Within p) : Execution p g outcome t := by
  cases h with
  | called hstep houtcome hidle => exact .called (hstep.trans hq) houtcome hidle
  | loaded hstep houtcome => exact .loaded (hstep.trans hq) houtcome
  | threaded hstep hcount houtcome htally =>
      exact .threaded (hstep.trans hq) hcount houtcome htally

/-- The one call of an `Execution` that can fail is the one that executes the closure. -/
theorem failures (h : Execution p g outcome t) : t.failures g = outcome.isFailure.toNat := by
  cases h with
  | called _ _ hidle =>
      rw [Trace.failures_append, Trace.failures_append, Trace.failures_returning, hidle.failures,
        Trace.failures_started, Nat.zero_add, RoutineNote.failures]
  | loaded _ _ => rw [Trace.failures_returning, RoutineNote.failures]
  | @threaded count _ _ _ _ _ hcount _ htally =>
      cases horder : List.range count with
      | nil => exact absurd (List.range_eq_nil.mp horder) (Nat.ne_of_gt hcount)
      | cons first others =>
          have hfirst := htally first others (horder ▸ .refl _)
          rw [Trace.failures_returning, hfirst]
          exact (Tally.ofResults_first outcome first others).2

end Execution

namespace Delivered

variable {p q : Routine} {g : Nat} {outcome : Outcome} {t : Trace RoutineEntry}

theorem mono (h : Delivered q g outcome t) (hq : q.Within p) : Delivered p g outcome t := by
  obtain ⟨before, execution, after, ht, hexecution, hbefore, hafter⟩ := h
  exact ⟨before, execution, after, ht, hexecution.mono hq, hbefore, hafter⟩

/-- More steps before and after, all `Idle` on the gate. -/
theorem extend {head tail : Trace RoutineEntry} (h : Delivered p g outcome t) (hhead : head.IdleOn g)
    (htail : tail.IdleOn g) : Delivered p g outcome (head ++ t ++ tail) := by
  obtain ⟨before, execution, after, rfl, hexecution, hbefore, hafter⟩ := h
  refine ⟨head ++ before, execution, after ++ tail, ?_, hexecution, hhead.append hbefore,
    hafter.append htail⟩
  simp only [List.append_assoc]

theorem failures (h : Delivered p g outcome t) : t.failures g = outcome.isFailure.toNat := by
  obtain ⟨before, execution, after, rfl, hexecution, hbefore, hafter⟩ := h
  rw [Trace.failures_append, Trace.failures_append, hbefore.failures, hafter.failures,
    hexecution.failures, Nat.zero_add, Nat.add_zero]

end Delivered

/-! ## All closures -/

/-- A closure that has been executed: its gate, and how it has ended. -/
structure Ended where
  gate : Nat
  outcome : Outcome
  deriving DecidableEq, Repr

/-- The closures that are executed in a stretch of a run, in the order of their ends. -/
structure Ledger (p : Routine) (before : Gates) (t : Trace RoutineEntry) (after : Gates)
    (ended : List Ended) : Prop where
  /-- No gate has executed two. -/
  nodup : (ended.map Ended.gate).Nodup
  /-- The gate was unused before, its failure is delivered, and it is completed then. -/
  executed : ∀ c ∈ ended, before.table c.gate = .unused ∧ Delivered p c.gate c.outcome t ∧
    after.table c.gate = .completed c.outcome.isFailure
  /-- All steps on the other gates are idle. -/
  idle : ∀ g, g ∉ ended.map Ended.gate → t.IdleOn g ∧ after.table g = before.table g
  /-- What is logged is the failures of the closures. -/
  events : t.events = ended.flatMap fun c => c.outcome.events

namespace Ledger

variable {p q : Routine} {before between after gs : Gates} {t u : Trace RoutineEntry}
  {ended later : List Ended}

theorem mono (h : Ledger q before t after ended) (hq : q.Within p) : Ledger p before t after ended where
  nodup := h.nodup
  executed c hc := by
    obtain ⟨hunused, hdelivered, hcompleted⟩ := h.executed c hc
    exact ⟨hunused, hdelivered.mono hq, hcompleted⟩
  idle := h.idle
  events := h.events

/-- The `Ledger` of no steps. -/
theorem nil : Ledger p gs [] gs [] where
  nodup := List.nodup_nil
  executed _ hc := absurd hc List.not_mem_nil
  idle _ _ := ⟨Trace.idleOn_nil, rfl⟩
  events := rfl

/-- The `Ledger` of a single `Idle` step. -/
theorem of_idle {note : RoutineNote} (hnote : note.Idle) (k : Nat) :
    Ledger p gs [.entry ⟨note, k, gs⟩] gs [] where
  nodup := List.nodup_nil
  executed _ hc := absurd hc List.not_mem_nil
  idle g _ := by
    refine ⟨?_, rfl⟩
    intro e he _
    rw [List.mem_singleton.mp he]
    exact hnote
  events := rfl

/-- A gate that has been used before is not in the `Ledger`. -/
theorem not_mem_of_used (h : Ledger p before t after ended) {g : Nat} (hused : before.table g ≠ .unused) :
    g ∉ ended.map Ended.gate := by
  intro hg
  obtain ⟨c, hc, rfl⟩ := List.mem_map.mp hg
  exact hused (h.executed c hc).1

/-- A gate in the `Ledger` is used after it. -/
theorem used_after (h : Ledger p before t after ended) {g : Nat} (hg : g ∈ ended.map Ended.gate) :
    after.table g ≠ .unused := by
  obtain ⟨c, hc, rfl⟩ := List.mem_map.mp hg
  rw [(h.executed c hc).2.2]
  intro hunused
  cases hunused

/-- **Two stretches in a row.** No gate executes a closure in both, as it is used in between. -/
theorem append (h : Ledger p before t between ended) (h' : Ledger p between u after later) :
    Ledger p before (t ++ u) after (ended ++ later) where
  nodup := by
    rw [List.map_append, List.nodup_append]
    refine ⟨h.nodup, h'.nodup, ?_⟩
    rintro g hg _ hg' rfl
    exact h'.not_mem_of_used (h.used_after hg) hg'
  executed c hc := by
    rcases List.mem_append.mp hc with hc | hc
    · obtain ⟨hunused, hdelivered, hcompleted⟩ := h.executed c hc
      obtain ⟨hidle, hsame⟩ := h'.idle c.gate
        (h'.not_mem_of_used (h.used_after (List.mem_map_of_mem hc)))
      exact ⟨hunused, hdelivered.extend Trace.idleOn_nil hidle, hsame.trans hcompleted⟩
    · obtain ⟨hunused, hdelivered, hcompleted⟩ := h'.executed c hc
      obtain ⟨hidle, hsame⟩ := h.idle c.gate fun hgate => h.used_after hgate hunused
      have hextended := hdelivered.extend hidle Trace.idleOn_nil
      rw [List.append_nil] at hextended
      exact ⟨hsame.symm.trans hunused, hextended, hcompleted⟩
  idle g hg := by
    rw [List.map_append, List.mem_append, not_or] at hg
    obtain ⟨hidle, hsame⟩ := h.idle g hg.1
    obtain ⟨hidle', hsame'⟩ := h'.idle g hg.2
    exact ⟨hidle.append hidle', hsame'.trans hsame⟩
  events := by rw [Trace.events_append, h.events, h'.events, List.flatMap_append]

/-- **A closure around a stretch**: the closures that it executes, and then itself. Its own gate is not
    among theirs, as it is in use from the start. -/
theorem around {started inner closed : Gates} {k : Nat} {outcome : Outcome}
    {head tail : Trace RoutineEntry} (h : Ledger p started t inner ended)
    (hexecution : Execution p k outcome (head ++ t ++ tail)) (hunused : gs.table k = .unused)
    (hstarted : started.table k ≠ .unused) (hclosed : closed.table k = .completed outcome.isFailure)
    (hothers : ∀ g, g ≠ k → started.table g = gs.table g ∧ closed.table g = inner.table g)
    (hhead : ∀ e ∈ head.entries, e.gate = k) (htail : ∀ e ∈ tail.entries, e.gate = k)
    (hheadEvents : head.events = []) (htailEvents : tail.events = outcome.events) :
    Ledger p gs (head ++ t ++ tail) closed (ended ++ [⟨k, outcome⟩]) where
  nodup := by
    rw [List.map_append, List.map_singleton, ← List.concat_eq_append, List.nodup_concat]
    exact ⟨h.not_mem_of_used hstarted, h.nodup⟩
  executed c hc := by
    rcases List.mem_append.mp hc with hc | hc
    · obtain ⟨hunused', hdelivered, hcompleted⟩ := h.executed c hc
      have hne : c.gate ≠ k := by
        intro hgate
        rw [hgate] at hunused'
        exact hstarted hunused'
      obtain ⟨hbefore, hafter⟩ := hothers c.gate hne
      exact ⟨hbefore.symm.trans hunused',
        hdelivered.extend (Trace.idleOn_of_other hhead hne) (Trace.idleOn_of_other htail hne),
        hafter.trans hcompleted⟩
    · rw [List.mem_singleton.mp hc]
      refine ⟨hunused, ⟨[], _, [], ?_, hexecution, Trace.idleOn_nil, Trace.idleOn_nil⟩, hclosed⟩
      rw [List.nil_append, List.append_nil]
  idle g hg := by
    rw [List.map_append, List.mem_append, not_or, List.map_singleton, List.mem_singleton] at hg
    obtain ⟨hidle, hsame⟩ := h.idle g hg.1
    obtain ⟨hbefore, hafter⟩ := hothers g hg.2
    refine ⟨?_, hafter.trans (hsame.trans hbefore)⟩
    exact ((Trace.idleOn_of_other hhead hg.2).append hidle).append (Trace.idleOn_of_other htail hg.2)
  events := by
    rw [Trace.events_append, Trace.events_append, hheadEvents, htailEvents, h.events,
      List.flatMap_append, List.flatMap_singleton, List.nil_append]

/-- The `Ledger` of a closure without steps of its own. -/
theorem of_passed {note : RoutineNote} {k : Nat} {outcome : Outcome}
    (hexecution : Execution p k outcome (Trace.returning outcome ⟨note, k, after⟩))
    (hunused : before.table k = .unused)
    (hafter : after.table = before.table.set k (.completed outcome.isFailure)) :
    Ledger p before (Trace.returning outcome ⟨note, k, after⟩) after [⟨k, outcome⟩] := by
  have hcompleted : after.table k = .completed outcome.isFailure := by rw [hafter, Table.set_same]
  have hused : after.table k ≠ .unused := by
    rw [hcompleted]
    intro h
    cases h
  have hothers : ∀ g, g ≠ k → after.table g = before.table g ∧ after.table g = after.table g := by
    intro g hg
    rw [hafter, Table.set_other _ _ hg]
    exact ⟨rfl, rfl⟩
  have hnone : Ledger p after [] after [] := nil
  have hexecution' : Execution p k outcome ([] ++ [] ++ Trace.returning outcome ⟨note, k, after⟩) :=
    hexecution
  exact hnone.around hexecution' hunused hused hcompleted hothers (List.forall_mem_nil _) (by simp) rfl
    (by simp)

end Ledger

/-! ## Whole runs -/

namespace Routine

variable {next : Routine} {gs : Gates}

/-- The steps that follow are run or skipped; either way there is a `Ledger`. -/
theorem exists_ledger_resume
    (h : ∃ ended, Ledger next gs (next.run gs).trace (next.run gs).gates ended) (propagate : Bool)
    (outcome : Outcome) :
    ∃ ended, Ledger next gs (next.resume propagate outcome gs).trace
      (next.resume propagate outcome gs).gates ended := by
  unfold resume
  split
  · exact ⟨[], .nil⟩
  · exact h

section Call

variable {body : Routine} {g : Nat} {propagate : Bool} {ending : Ending} {started : Gates}
  {outcome : Outcome}

/-- `run` of a call, with its closure in the form of an `Execution`. -/
theorem run_call_eq_after (hunused : gs.table g = .unused) (hset : gs.setGate g .running = started)
    (houtcome : body.closureOutcome ending started = outcome) :
    (call g propagate body ending next).run gs =
      (next.resume propagate outcome (closed g body ending started)).after
        ([.entry ⟨.started, g, started⟩] ++ (body.run started).trace ++
          Trace.returning outcome ⟨.called outcome true, g, closed g body ending started⟩) := by
  subst hset houtcome
  rw [run_call_unused hunused, List.append_assoc]
  rfl

/-- The `Ledger` of a `call`, from that of the steps of its closure. -/
theorem ledger_called {p : Routine} {ended : List Ended}
    (hstep : Within (.call g propagate body ending next) p) (hunused : gs.table g = .unused)
    (hset : gs.setGate g .running = started) (houtcome : body.closureOutcome ending started = outcome)
    (h : Ledger body started (body.run started).trace (body.run started).gates ended) :
    Ledger p gs
      ([.entry ⟨.started, g, started⟩] ++ (body.run started).trace ++
        Trace.returning outcome ⟨.called outcome true, g, closed g body ending started⟩)
      (closed g body ending started) (ended ++ [⟨g, outcome⟩]) := by
  have hrunning : started.table g = .running := by
    rw [← hset, Gates.table_setGate, Table.set_same]
  have hstarted : started.table g ≠ .unused := by
    rw [hrunning]
    intro h
    cases h
  have hclosed : (closed g body ending started).table g = .completed outcome.isFailure := by
    unfold closed
    rw [Gates.table_setGate, Table.set_same, houtcome]
  have hothers : ∀ k, k ≠ g → started.table k = gs.table k ∧
      (closed g body ending started).table k = (body.run started).gates.table k := by
    intro k hk
    unfold closed
    rw [← hset, Gates.table_setGate, Gates.table_setGate, Table.set_other _ _ hk,
      Table.set_other _ _ hk]
    exact ⟨rfl, rfl⟩
  obtain ⟨hidle, -⟩ := h.idle g (h.not_mem_of_used hstarted)
  have hbody := h.mono ((Within.body .self).trans hstep)
  exact hbody.around (.called hstep houtcome hidle) hunused hstarted hclosed hothers (by simp) (by simp)
    rfl (by simp)

end Call

/-- The `Ledger` of a `load`. -/
theorem ledger_loaded {g : Nat} (hunused : gs.table g = .unused) (propagate : Bool) (timeout : Text)
    (next : Routine) :
    Ledger (load g propagate timeout next) gs
      (Trace.returning (gs.load g timeout).2
        ⟨.loaded (gs.load g timeout).2, g, (gs.load g timeout).1⟩)
      (gs.load g timeout).1 [⟨g, (gs.load g timeout).2⟩] :=
  Ledger.of_passed (.loaded .self (Gates.load_outcome hunused timeout).symm) hunused
    (Gates.load_unused hunused timeout).1

theorem run_threads (g count : Nat) (ending : Ending) (next : Routine) (gs : Gates) :
    (threads g count ending next).run gs =
      (next.run (gs.callAll g ending.outcome (List.range count)).1).after
        (Trace.ofEvents ((gs.callAll g ending.outcome (List.range count)).2.flatMap
            fun r => r.2.2.events) ++
          [.entry ⟨.threaded (Tally.ofResults (gs.callAll g ending.outcome (List.range count)).2), g,
            (gs.callAll g ending.outcome (List.range count)).1⟩]) := rfl

/-- The `Ledger` of `threads`. It does not say which thread was the first, as `Tally` does not. -/
theorem ledger_threaded {g count first : Nat} {others : List Nat} (hunused : gs.table g = .unused)
    (horder : List.range count = first :: others) (ending : Ending) (next : Routine) :
    Ledger (threads g count ending next) gs
      (Trace.returning ending.outcome ⟨.threaded (Tally.ofResults
        ((first, true, ending.outcome) :: others.map fun thread => (thread, false, .ok))), g,
        gs.setGate g (.completed ending.outcome.isFailure)⟩)
      (gs.setGate g (.completed ending.outcome.isFailure)) [⟨g, ending.outcome⟩] := by
  have hlength : count = others.length + 1 := by
    rw [← List.length_cons, ← horder, List.length_range]
  refine Ledger.of_passed (.threaded .self (by omega) rfl ?_) hunused rfl
  intro first' others' hperm
  have hlength' := hperm.length_eq
  rw [List.length_cons, List.length_range] at hlength'
  exact Tally.ofResults_first_congr _ _ _ (by omega)

/-- **Every run has a `Ledger`**, from every state. -/
theorem exists_ledger_run (p : Routine) (gs : Gates) :
    ∃ ended, Ledger p gs (p.run gs).trace (p.run gs).gates ended := by
  induction p generalizing gs with
  | done => exact ⟨[], .nil⟩
  | query g next ih =>
      obtain ⟨later, hlater⟩ := ih gs
      exact ⟨later, (Ledger.of_idle .queried g).append (hlater.mono (.query .self))⟩
  | call g propagate body ending next ihbody ihnext =>
      by_cases hunused : gs.table g = .unused
      · obtain ⟨ended, hended⟩ := ihbody (gs.setGate g .running)
        obtain ⟨later, hlater⟩ := exists_ledger_resume
          (ihnext (closed g body ending (gs.setGate g .running))) propagate
          (body.closureOutcome ending (gs.setGate g .running))
        rw [run_call_eq_after hunused rfl rfl]
        exact ⟨_, (ledger_called .self hunused rfl rfl hended).append (hlater.mono (.call .self))⟩
      · obtain ⟨later, hlater⟩ := ihnext gs
        rw [run_call_of_used hunused, RoutineRun.gates_after, RoutineRun.trace_after]
        exact ⟨later, (Ledger.of_idle .called g).append (hlater.mono (.call .self))⟩
  | load g propagate timeout next ih =>
      by_cases hunused : gs.table g = .unused
      · obtain ⟨later, hlater⟩ := exists_ledger_resume (ih (gs.load g timeout).1) propagate
          (gs.load g timeout).2
        rw [run_load, RoutineRun.gates_after, RoutineRun.trace_after]
        exact ⟨_, (ledger_loaded hunused propagate timeout next).append (hlater.mono (.load .self))⟩
      · obtain ⟨later, hlater⟩ := ih gs
        rw [run_load_of_used hunused, RoutineRun.gates_after, RoutineRun.trace_after]
        exact ⟨later, (Ledger.of_idle .loaded g).append (hlater.mono (.load .self))⟩
  | threads g count ending next ih =>
      by_cases hunused : gs.table g = .unused
      · cases horder : List.range count with
        | nil =>
            obtain ⟨later, hlater⟩ := ih gs
            rw [run_threads, horder, Gates.callAll_nil]
            exact ⟨later, (Ledger.of_idle (.threaded 0) g).append (hlater.mono (.threads .self))⟩
        | cons first others =>
            obtain ⟨later, hlater⟩ := ih (gs.setGate g (.completed ending.outcome.isFailure))
            rw [run_threads, horder, Gates.callAll_unused_cons hunused, Outcome.events_first]
            exact ⟨_, (ledger_threaded hunused horder ending next).append
              (hlater.mono (.threads .self))⟩
      · obtain ⟨later, hlater⟩ := ih gs
        rw [run_threads_of_used hunused, RoutineRun.gates_after, RoutineRun.trace_after]
        exact ⟨later, (Ledger.of_idle (.threaded count) g).append (hlater.mono (.threads .self))⟩

end Routine

/-! ## The log of a run -/

namespace Outcome

/-- What is logged of a closure is a warning. -/
theorem level_of_mem_events {outcome : Outcome} {e : Event} (he : e ∈ outcome.events) :
    e.level = .warn := by
  cases outcome with
  | ok => exact absurd he List.not_mem_nil
  | error _ => rw [List.mem_singleton.mp he]; rfl
  | panic _ => rw [List.mem_singleton.mp he]; rfl

theorem length_events (outcome : Outcome) : outcome.events.length = outcome.isFailure.toNat := by
  cases outcome <;> rfl

end Outcome

/-- The closures that have failed. -/
def Ended.failed (ended : List Ended) : List Ended := ended.filter fun c => c.outcome.isFailure

/-- One event is logged for each closure that has failed. -/
theorem Ended.length_events (ended : List Ended) :
    (ended.flatMap fun c => c.outcome.events).length = (failed ended).length := by
  induction ended with
  | nil => rfl
  | cons c ended ih =>
      rw [List.flatMap_cons, List.length_append, ih, Outcome.length_events]
      cases hfailure : c.outcome.isFailure <;> simp [failed, hfailure, Nat.add_comm]

namespace Ledger

variable {p : Routine} {t : Trace RoutineEntry} {after : Gates} {ended : List Ended}

/-- A gate `hasFailed` exactly if it is that of a closure that has. -/
theorem hasFailed_iff (h : Ledger p .initial t after ended) (g : Nat) :
    (after.table g).hasFailed = true ↔ g ∈ (Ended.failed ended).map Ended.gate := by
  constructor
  · intro hfailed
    by_cases hg : g ∈ ended.map Ended.gate
    · obtain ⟨c, hc, rfl⟩ := List.mem_map.mp hg
      rw [(h.executed c hc).2.2] at hfailed
      exact List.mem_map_of_mem (List.mem_filter.mpr ⟨hc, hfailed⟩)
    · rw [(h.idle g hg).2] at hfailed
      cases hfailed
  · intro hg
    obtain ⟨c, hc, rfl⟩ := List.mem_map.mp hg
    obtain ⟨hc, hfailure⟩ := List.mem_filter.mp hc
    rw [(h.executed c hc).2.2]
    exact hfailure

/-- One call of a gate that `hasFailed` fails, and no call of another gate. -/
theorem failures_eq (h : Ledger p .initial t after ended) (g : Nat) :
    t.failures g = (after.table g).hasFailed.toNat := by
  by_cases hg : g ∈ ended.map Ended.gate
  · obtain ⟨c, hc, rfl⟩ := List.mem_map.mp hg
    obtain ⟨-, hdelivered, hcompleted⟩ := h.executed c hc
    rw [hdelivered.failures, hcompleted]
    rfl
  · obtain ⟨hidle, hsame⟩ := h.idle g hg
    rw [hidle.failures, hsame]
    rfl

/-- As many events are logged as gates have failed. -/
theorem length_events (h : Ledger p .initial t after ended) :
    t.events.length = ((Ended.failed ended).map Ended.gate).toFinset.card := by
  have hnodup : ((Ended.failed ended).map Ended.gate).Nodup :=
    h.nodup.sublist (List.filter_sublist.map Ended.gate)
  rw [List.toFinset_card_of_nodup hnodup, List.length_map, h.events, Ended.length_events]

end Ledger

namespace Routine

/-- **The failure of a closure is delivered once and logged once.** In every run there are closures that are
    executed, at most one for a gate. The call that executes one ends as the closure has ended, with its
    error or panic; all other calls of the gate succeed, and so do all calls of a gate that has executed
    none. So a gate that has failed in the end has one failing call, and another gate has none. What is
    logged is, in the order of their ends, one warning for each closure that has failed, for its error
    or for its panic, right before its call returns; these are as many as gates have failed. -/
theorem failure_delivered_once (p : Routine) :
    ∃ ended : List Ended,
      Ledger p .initial (p.run .initial).trace (p.run .initial).gates ended ∧
      (∀ g, (p.run .initial).trace.failures g =
        ((p.run .initial).gates.table g).hasFailed.toNat) ∧
      (∀ e ∈ (p.run .initial).trace.events, e.level = .warn) ∧
      ∃ failed : Finset Nat,
        (∀ g, g ∈ failed ↔ ((p.run .initial).gates.table g).hasFailed = true) ∧
        (p.run .initial).trace.events.length = failed.card := by
  obtain ⟨ended, h⟩ := p.exists_ledger_run .initial
  refine ⟨ended, h, h.failures_eq, ?_, _, ?_, h.length_events⟩
  · intro e he
    rw [h.events, List.mem_flatMap] at he
    obtain ⟨c, -, he⟩ := he
    exact Outcome.level_of_mem_events he
  · intro g
    rw [List.mem_toFinset, h.hasFailed_iff g]

/-- Of the three closures in each other the innermost one returns an error, and the other two panic: their
    calls, of the gates `2`, `1` and `0` in this order, are the only ones that fail, and there is a warning
    for each of them. -/
theorem failure_delivered_once_nested :
    (nested.run .initial).trace.entries.map (fun e => (e.gate, e.note)) =
      [(0, .started), (1, .started), (2, .loaded (.error "timeout must not be zero".toList)),
        (1, .called (.panic "no route".toList) true), (0, .called (.panic "no route".toList) true),
        (0, .threaded ⟨0, 3, 0, 0⟩), (1, .called .ok false)] ∧
    (nested.run .initial).trace.events = [.gateFailed, .gatePanicked, .gatePanicked] ∧
    (nested.run .initial).trace.failures 0 = 1 ∧ (nested.run .initial).trace.failures 1 = 1 ∧
    (nested.run .initial).trace.failures 2 = 1 ∧ (nested.run .initial).trace.failures 3 = 0 ∧
    ∃ failed : Finset Nat, failed.card = 3 ∧
      ∀ g, g ∈ failed ↔ ((nested.run .initial).gates.table g).hasFailed = true := by
  obtain ⟨_, -, hfailures, -, failed, hfailed, hcard⟩ := failure_delivered_once nested
  have hevents : (nested.run .initial).trace.events =
      [.gateFailed, .gatePanicked, .gatePanicked] := by decide
  rw [hevents] at hcard
  exact ⟨by decide, hevents, hfailures 0, hfailures 1, hfailures 2, hfailures 3, failed, hcard.symm, hfailed⟩

end Routine

end NetKit
