import NetKit.Gate.Routine

/-!
# Moves of a gate — what one step of a routine does to a gate

Every step of `Routine.run` is recorded with all gates after it. Seen from one gate, an entry of the
record is one of four moves (`GateMove`): the gate stays as it is and none of its closures is executed;
a closure starts on the unused gate, which is running then; the closure that is running returns, and the
gate is completed; or the unused gate is passed at once, by a timeout that is loaded or by threads.

The record of a run is a chain of such moves (`Routine.gateMoves_run`), for every routine and from every
state. The induction is on the routine. It needs to know that the gate of a closure is still running when
the closure returns, whatever its steps have done (`Routine.table_run_eq_running_iff`).

## Contents
- `Gate.callAll_of_used`, `Gate.callAll_unused_cons`, `Gates.load_of_used`, `Gates.load_unused`: what the
  calls of a step do.
- `RoutineEntry.starts`, `RoutineEntry.ends`: the closures that an entry shows to have been executed.
- `GateMove`, `GateMoves`: single moves, and chains of them.
- `Routine.gateMoves_run`: whole runs.
-/

namespace NetKit

/-! ## Calls -/

namespace Gate

variable {τ : Type}

/-- `callAll` of a used gate runs no closure. -/
theorem callAll_of_used {g : Gate} (hused : g ≠ unused) (closure : Outcome) (order : List τ) :
    g.callAll closure order = (g, order.map fun thread => (thread, false, .ok)) := by
  induction order with
  | nil => rfl
  | cons thread order ih =>
      unfold callAll
      rw [call_of_used hused]
      simp only [ih, List.map_cons]

/-- `callAll` of an unused gate runs the closure of the first call. -/
theorem callAll_unused_cons (closure : Outcome) (thread : τ) (order : List τ) :
    unused.callAll closure (thread :: order) =
      (completed closure.isFailure,
        (thread, true, closure) :: order.map fun thread => (thread, false, .ok)) := by
  have hused : completed closure.isFailure ≠ unused := by intro h; cases h
  unfold callAll
  rw [call_unused]
  simp only [callAll_of_used hused]

end Gate

namespace Tally

variable {τ : Type}

/-- Calls that run nothing all succeed. -/
theorem ofResults_idle (order : List τ) :
    ofResults (order.map fun thread => (thread, false, Outcome.ok)) = ⟨0, order.length, 0, 0⟩ := by
  simp [ofResults, List.countP_map, Function.comp_def]

/-- If one of the calls runs its closure, only this call can fail. -/
theorem ofResults_first (closure : Outcome) (thread : τ) (order : List τ) :
    (ofResults ((thread, true, closure) :: order.map fun thread => (thread, false, .ok))).runs = 1 ∧
      (ofResults ((thread, true, closure) :: order.map fun thread => (thread, false, .ok))).errors +
        (ofResults ((thread, true, closure) :: order.map fun thread => (thread, false, .ok))).panics =
          closure.isFailure.toNat := by
  cases closure <;>
    simp [ofResults, List.countP_map, Function.comp_def, Outcome.isFailure]

/-- `ofResults` does not depend on what the threads are called. -/
theorem ofResults_first_congr {σ : Type} (closure : Outcome) (first : τ) (first' : σ)
    {others : List τ} {others' : List σ} (h : others.length = others'.length) :
    ofResults ((first, true, closure) :: others.map fun thread => (thread, false, .ok)) =
      ofResults ((first', true, closure) :: others'.map fun thread => (thread, false, .ok)) := by
  cases closure <;> simp [ofResults, List.countP_map, Function.comp_def, h]

end Tally

namespace Gates

variable {gs : Gates} {g : Nat} {τ : Type}

@[simp] theorem table_setGate (gs : Gates) (g : Nat) (gate : Gate) :
    (gs.setGate g gate).table = gs.table.set g gate := rfl

/-- `setGate` of a gate to what it is. -/
theorem setGate_self (gs : Gates) (g : Nat) : gs.setGate g (gs.table g) = gs := by
  have htable : gs.table.set g (gs.table g) = gs.table := by
    funext j
    by_cases hj : j = g
    · rw [hj, Table.set_same]
    · rw [Table.set_other _ _ hj]
  unfold setGate
  rw [htable]

theorem load_of_used (hused : gs.table g ≠ .unused) (timeout : Text) :
    gs.load g timeout = (gs, .ok) := by
  unfold load
  cases hgate : gs.table g with
  | unused => exact absurd hgate hused
  | running => rfl
  | completed failed => rfl

/-- A timeout that is loaded is not zero, so that `total` shows it. -/
theorem loadTimeout_ne_zero {t : Text} {n : UInt64} (h : loadTimeout t = .ok n) : n ≠ 0 := by
  unfold loadTimeout at h
  split at h
  · cases h
  · split at h
    · cases h
    · next hne =>
        cases h
        exact hne

/-- The first `load` completes its gate, and fails or adds to `total`. -/
theorem load_unused (hunused : gs.table g = .unused) (timeout : Text) :
    (gs.load g timeout).1.table = gs.table.set g (.completed (gs.load g timeout).2.isFailure) ∧
      ((gs.load g timeout).2.isFailure = true ∨ (gs.load g timeout).1.total ≠ gs.total) := by
  unfold load
  rw [hunused]
  cases htimeout : loadTimeout timeout with
  | error message => exact ⟨rfl, .inl rfl⟩
  | ok n =>
      refine ⟨rfl, .inr ?_⟩
      intro htotal
      exact loadTimeout_ne_zero htimeout (by simpa using htotal)

theorem callAll_of_used (hused : gs.table g ≠ .unused) (closure : Outcome) (order : List τ) :
    gs.callAll g closure order = (gs, order.map fun thread => (thread, false, .ok)) := by
  unfold callAll
  simp only [Gate.callAll_of_used hused, setGate_self]

theorem callAll_nil (gs : Gates) (g : Nat) (closure : Outcome) :
    gs.callAll g closure ([] : List τ) = (gs, []) := by
  unfold callAll
  simp only [Gate.callAll, setGate_self]

theorem callAll_unused_cons (hunused : gs.table g = .unused) (closure : Outcome) (thread : τ)
    (order : List τ) :
    gs.callAll g closure (thread :: order) =
      (gs.setGate g (.completed closure.isFailure),
        (thread, true, closure) :: order.map fun thread => (thread, false, .ok)) := by
  unfold callAll
  simp only [hunused, Gate.callAll_unused_cons]

end Gates

/-! ## Executions -/

/-- How many closures the note says to have been started; `changed` is whether the total has. -/
def RoutineNote.starts (changed : Bool) : RoutineNote → Nat
  | started => 1
  | queried => 0
  | called _ _ => 0
  | loaded outcome => (outcome.isFailure || changed).toNat
  | threaded tally => tally.runs

/-- How many closures the note says to have ended; `changed` is whether the total has. -/
def RoutineNote.ends (changed : Bool) : RoutineNote → Nat
  | started => 0
  | queried => 0
  | called _ executed => executed.toNat
  | loaded outcome => (outcome.isFailure || changed).toNat
  | threaded tally => tally.runs

namespace RoutineEntry

/-- How many closures of gate `g` the entry shows to have been started, after the state `before` it. -/
def starts (g : Nat) (before : Gates) (e : RoutineEntry) : Nat :=
  if e.gate = g then e.note.starts (e.state.total ≠ before.total) else 0

/-- How many closures of gate `g` the entry shows to have ended, after the state `before` it. -/
def ends (g : Nat) (before : Gates) (e : RoutineEntry) : Nat :=
  if e.gate = g then e.note.ends (e.state.total ≠ before.total) else 0

end RoutineEntry

/-- What passes an unused gate in one step, and whether its closure has failed. -/
inductive RoutineNote.Passes : RoutineNote → Bool → Prop where
  | loaded (outcome : Outcome) : Passes (.loaded outcome) outcome.isFailure
  | threaded {tally : Tally} {failed : Bool} (hruns : tally.runs = 1)
      (hfailures : tally.errors + tally.panics = failed.toNat) : Passes (.threaded tally) failed

/-! ## Moves -/

/-- What an entry does to gate `g`, from the state `before` it. -/
inductive GateMove (g : Nat) (before : Gates) (e : RoutineEntry) : Prop where
  | stays (hstarts : e.starts g before = 0) (hends : e.ends g before = 0)
      (hsame : e.state.table g = before.table g)
  | starts (hgate : e.gate = g) (hnote : e.note = .started) (hbefore : before.table g = .unused)
      (hafter : e.state.table g = .running)
  | returns {outcome : Outcome} (hgate : e.gate = g) (hnote : e.note = .called outcome true)
      (hbefore : before.table g = .running)
      (hafter : e.state.table g = .completed outcome.isFailure)
  | passes {failed : Bool} (hgate : e.gate = g) (hnote : e.note.Passes failed)
      (hstarts : e.starts g before = 1) (hends : e.ends g before = 1)
      (hbefore : before.table g = .unused) (hafter : e.state.table g = .completed failed)

/-- Entries that each move gate `g` on from where the one before has left it. -/
inductive GateMoves (g : Nat) : Gates → List RoutineEntry → Gates → Prop where
  | nil {gs : Gates} : GateMoves g gs [] gs
  | cons {before after : Gates} {e : RoutineEntry} {entries : List RoutineEntry}
      (hmove : GateMove g before e) (hrest : GateMoves g e.state entries after) :
      GateMoves g before (e :: entries) after

theorem GateMoves.append {g : Nat} {before between after : Gates}
    {entries entries' : List RoutineEntry} (h : GateMoves g before entries between)
    (h' : GateMoves g between entries' after) : GateMoves g before (entries ++ entries') after := by
  induction h with
  | nil => exact h'
  | cons hmove _ ih => exact .cons hmove (ih h')

namespace GateMove

variable {g k : Nat} {gs : Gates}

/-- An entry on another gate `stays`. -/
theorem of_other {e : RoutineEntry} (hgate : e.gate ≠ g) (hsame : e.state.table g = gs.table g) :
    GateMove g gs e :=
  .stays (if_neg hgate) (if_neg hgate) hsame

/-- An entry that changes no gate and no total, and has executed nothing. -/
theorem of_same {note : RoutineNote} (hstarts : note.starts false = 0) (hends : note.ends false = 0) :
    GateMove g gs ⟨note, k, gs⟩ := by
  have hunchanged : decide (gs.total ≠ gs.total) = false := decide_eq_false (fun h => h rfl)
  refine .stays ?_ ?_ rfl
  · unfold RoutineEntry.starts
    simp only [hunchanged, hstarts, ite_self]
  · unfold RoutineEntry.ends
    simp only [hunchanged, hends, ite_self]

/-- A closure that starts. -/
theorem of_started (hunused : gs.table k = .unused) :
    GateMove g gs ⟨.started, k, gs.setGate k .running⟩ := by
  by_cases hgate : k = g
  · subst hgate
    exact .starts rfl rfl hunused (Table.set_same _ _ _)
  · exact of_other hgate (Table.set_other _ _ (Ne.symm hgate))

/-- A closure that returns. -/
theorem of_returned (hrunning : gs.table k = .running) (outcome : Outcome) :
    GateMove g gs ⟨.called outcome true, k, gs.setGate k (.completed outcome.isFailure)⟩ := by
  by_cases hgate : k = g
  · subst hgate
    exact .returns rfl rfl hrunning (Table.set_same _ _ _)
  · exact of_other hgate (Table.set_other _ _ (Ne.symm hgate))

/-- A timeout that is loaded, or not if the gate is used. -/
theorem of_loaded (gs : Gates) (k : Nat) (timeout : Text) :
    GateMove g gs ⟨.loaded (gs.load k timeout).2, k, (gs.load k timeout).1⟩ := by
  by_cases hunused : gs.table k = .unused
  · obtain ⟨htable, hshown⟩ := Gates.load_unused hunused timeout
    have hone : ((gs.load k timeout).2.isFailure ||
        decide ((gs.load k timeout).1.total ≠ gs.total)) = true := by
      rw [Bool.or_eq_true, decide_eq_true_eq]
      exact hshown
    by_cases hgate : k = g
    · subst hgate
      refine .passes rfl (.loaded _) ?_ ?_ hunused (by rw [htable, Table.set_same])
      · exact (if_pos rfl).trans (congrArg Bool.toNat hone)
      · exact (if_pos rfl).trans (congrArg Bool.toNat hone)
    · exact of_other hgate (by rw [htable, Table.set_other _ _ (Ne.symm hgate)])
  · rw [Gates.load_of_used hunused]
    exact of_same rfl rfl

/-- Threads that call a gate, of which one passes if it is unused and there is one. -/
theorem of_threaded {τ : Type} (gs : Gates) (k : Nat) (closure : Outcome) (order : List τ) :
    GateMove g gs ⟨.threaded (Tally.ofResults (gs.callAll k closure order).2), k,
      (gs.callAll k closure order).1⟩ := by
  by_cases hunused : gs.table k = .unused
  · cases order with
    | nil =>
        rw [Gates.callAll_nil]
        exact of_same rfl rfl
    | cons thread order =>
        rw [Gates.callAll_unused_cons hunused]
        obtain ⟨hruns, hfailures⟩ := Tally.ofResults_first closure thread order
        by_cases hgate : k = g
        · subst hgate
          exact .passes rfl (.threaded hruns hfailures) ((if_pos rfl).trans hruns)
            ((if_pos rfl).trans hruns) hunused (Table.set_same _ _ _)
        · exact of_other hgate (Table.set_other _ _ (Ne.symm hgate))
  · rw [Gates.callAll_of_used hunused]
    have hidle := Tally.ofResults_idle order
    exact of_same (by rw [hidle]; rfl) (by rw [hidle]; rfl)

end GateMove

/-! ## Runs -/

namespace GateMove

variable {g : Nat} {before : Gates} {e : RoutineEntry}

/-- Only the start and the return of a closure change whether its gate is `running`. -/
theorem running_iff (h : GateMove g before e) (hstarted : e.note ≠ .started)
    (hcalled : ∀ outcome, e.note ≠ .called outcome true) :
    e.state.table g = .running ↔ before.table g = .running := by
  cases h with
  | stays _ _ hsame => rw [hsame]
  | starts _ hnote _ _ => exact absurd hnote hstarted
  | returns _ hnote _ _ => exact absurd hnote (hcalled _)
  | passes _ _ _ _ hbefore hafter =>
      rw [hbefore, hafter]
      constructor <;> (intro h; cases h)

end GateMove

namespace RoutineRun

variable (earlier : Trace RoutineEntry) (r : RoutineRun)

@[simp] theorem gates_after : (r.after earlier).gates = r.gates := rfl

@[simp] theorem trace_after : (r.after earlier).trace = earlier ++ r.trace := rfl

end RoutineRun

namespace Routine

/-- `run` of a call of a used gate runs no closure. -/
theorem run_call_of_used {gs : Gates} {k : Nat} (hused : gs.table k ≠ .unused) (propagate : Bool)
    (body : Routine) (ending : Ending) (next : Routine) :
    (call k propagate body ending next).run gs =
      (next.run gs).after [.entry ⟨.called .ok false, k, gs⟩] := by
  rw [run]
  cases hgate : gs.table k with
  | unused => exact absurd hgate hused
  | running => rfl
  | completed failed => rfl

/-- What is run after a step that may propagate its failure: nothing more, if it does. -/
def resume (next : Routine) (propagate : Bool) (outcome : Outcome) (gs : Gates) : RoutineRun :=
  if propagate && outcome.isFailure then ⟨gs, [], outcome⟩ else next.run gs

theorem after_resume (next : Routine) (propagate : Bool) (outcome : Outcome) (gs : Gates)
    (happened : Trace RoutineEntry) :
    (next.resume propagate outcome gs).after happened =
      if propagate && outcome.isFailure then ⟨gs, happened, outcome⟩
      else (next.run gs).after happened := by
  unfold resume
  split
  · rw [RoutineRun.after, List.append_nil]
  · rfl

/-- The outcome of a closure that runs `body` on the gates `started` and then ends. -/
def closureOutcome (body : Routine) (ending : Ending) (started : Gates) : Outcome :=
  (body.run started).outcome.andThen ending.outcome

/-- The gates after a closure that was `started` has returned. -/
def closed (k : Nat) (body : Routine) (ending : Ending) (started : Gates) : Gates :=
  (body.run started).gates.setGate k (.completed (body.closureOutcome ending started).isFailure)

/-- `run` of a call of an unused gate runs the closure between the two entries of its start and its return. -/
theorem run_call_unused {gs : Gates} {k : Nat} (hunused : gs.table k = .unused) (propagate : Bool)
    (body : Routine) (ending : Ending) (next : Routine) :
    (call k propagate body ending next).run gs =
      (next.resume propagate (body.closureOutcome ending (gs.setGate k .running))
        (closed k body ending (gs.setGate k .running))).after
        (.entry ⟨.started, k, gs.setGate k .running⟩ :: (body.run (gs.setGate k .running)).trace ++
          Trace.ofEvents (body.closureOutcome ending (gs.setGate k .running)).events ++
          [.entry ⟨.called (body.closureOutcome ending (gs.setGate k .running)) true, k,
            closed k body ending (gs.setGate k .running)⟩]) := by
  rw [after_resume, run, hunused]
  rfl

theorem run_load (k : Nat) (propagate : Bool) (timeout : Text) (next : Routine) (gs : Gates) :
    (load k propagate timeout next).run gs =
      (next.resume propagate (gs.load k timeout).2 (gs.load k timeout).1).after
        (Trace.ofEvents (gs.load k timeout).2.events ++
          [.entry ⟨.loaded (gs.load k timeout).2, k, (gs.load k timeout).1⟩]) := by
  rw [after_resume, run]

theorem resume_running_iff {next : Routine} {gs : Gates} {g : Nat}
    (hnext : (next.run gs).gates.table g = .running ↔ gs.table g = .running) (propagate : Bool)
    (outcome : Outcome) :
    (next.resume propagate outcome gs).gates.table g = .running ↔ gs.table g = .running := by
  unfold resume
  split
  · exact Iff.rfl
  · exact hnext

/-- **A gate is `running` after a run exactly if it was before**: a closure that starts during a run also
    returns. -/
theorem table_run_eq_running_iff (p : Routine) (gs : Gates) (g : Nat) :
    (p.run gs).gates.table g = .running ↔ gs.table g = .running := by
  induction p generalizing gs with
  | done => rfl
  | query k next ih => exact ih gs
  | call k propagate body ending next ihbody ihnext =>
      by_cases hunused : gs.table k = .unused
      · have hclosed : (closed k body ending (gs.setGate k .running)).table g = .running ↔
            gs.table g = .running := by
          by_cases hgate : g = k
          · subst hgate
            unfold closed
            rw [Gates.table_setGate, Table.set_same, hunused]
            constructor <;> (intro h; cases h)
          · unfold closed
            rw [Gates.table_setGate, Table.set_other _ _ hgate, ihbody, Gates.table_setGate,
              Table.set_other _ _ hgate]
        rw [run_call_unused hunused, RoutineRun.gates_after, ← hclosed]
        exact resume_running_iff (ihnext _) _ _
      · rw [run_call_of_used hunused, RoutineRun.gates_after]
        exact ihnext gs
  | load k propagate timeout next ih =>
      have hmove := (GateMove.of_loaded gs k timeout).running_iff (g := g)
        (by intro h; cases h) (by intro _ h; cases h)
      rw [run_load, RoutineRun.gates_after, ← hmove]
      exact resume_running_iff (ih _) _ _
  | threads k count ending next ih =>
      have hmove := (GateMove.of_threaded gs k ending.outcome (List.range count)).running_iff (g := g)
        (by intro h; cases h) (by intro _ h; cases h)
      rw [← hmove]
      exact ih _

/-- `GateMoves` go on where the steps that follow are run, and end where they are skipped. -/
theorem gateMoves_resume {g : Nat} {next : Routine} {gs : Gates}
    (hnext : GateMoves g gs (next.run gs).trace.entries (next.run gs).gates) (propagate : Bool)
    (outcome : Outcome) :
    GateMoves g gs (next.resume propagate outcome gs).trace.entries
      (next.resume propagate outcome gs).gates := by
  unfold resume
  split
  · exact .nil
  · exact hnext

/-- **The record of a run is a chain of `GateMove`s**, of every gate and from every state. -/
theorem gateMoves_run (p : Routine) (g : Nat) (gs : Gates) :
    GateMoves g gs (p.run gs).trace.entries (p.run gs).gates := by
  induction p generalizing gs with
  | done => exact .nil
  | query k next ih => exact .cons (.of_same rfl rfl) (ih gs)
  | call k propagate body ending next ihbody ihnext =>
      by_cases hunused : gs.table k = .unused
      · have hrunning : (body.run (gs.setGate k .running)).gates.table k = .running :=
          (body.table_run_eq_running_iff _ k).mpr (Table.set_same _ _ _)
        have hreturns := GateMove.of_returned (g := g) hrunning
          (body.closureOutcome ending (gs.setGate k .running))
        have hrest := gateMoves_resume (ihnext (closed k body ending (gs.setGate k .running)))
          propagate (body.closureOutcome ending (gs.setGate k .running))
        rw [run_call_unused hunused, RoutineRun.gates_after, RoutineRun.trace_after]
        simp only [List.cons_append, List.append_assoc, List.nil_append, Trace.entries_append,
          Trace.entries_entry, Trace.entries_ofEvents]
        exact .cons (.of_started hunused) ((ihbody _).append (.cons hreturns hrest))
      · rw [run_call_of_used hunused]
        exact .cons (.of_same rfl rfl) (ihnext gs)
  | load k propagate timeout next ih =>
      have hrest := gateMoves_resume (ih (gs.load k timeout).1) propagate (gs.load k timeout).2
      rw [run_load, RoutineRun.gates_after, RoutineRun.trace_after]
      simp only [Trace.entries_append, Trace.entries_ofEvents, Trace.entries_entry, Trace.entries_nil,
        List.nil_append, List.cons_append]
      exact .cons (.of_loaded gs k timeout) hrest
  | threads k count ending next ih =>
      rw [run, RoutineRun.gates_after, RoutineRun.trace_after]
      simp only [Trace.entries_append, Trace.entries_ofEvents, Trace.entries_entry, Trace.entries_nil,
        List.nil_append, List.cons_append]
      exact .cons (.of_threaded gs k ending.outcome (List.range count)) (ih _)

end Routine

end NetKit
