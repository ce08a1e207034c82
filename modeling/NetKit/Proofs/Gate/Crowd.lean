import Mathlib.Algebra.Order.BigOperators.Group.Finset
import Mathlib.Data.Fintype.BigOperators
import Mathlib.Data.List.FinRange
import NetKit.Proofs.Gate.Moves

/-!
# Crowds — threads that call a gate at the same time

The calls of several threads overlap. The first thread that reaches an unused gate executes its closure,
and those that come while it does so wait; when the closure has ended, with whatever outcome, the gate is
completed, and every other thread passes it, those that have waited as well as those that come later. A
thread that has not executed the closure knows nothing of its outcome.

What the call of a thread will come to is settled when the thread reaches the gate
(`Caller.promise`), although it may then have to wait. In every state of every interleaving the promises,
in the order of `arrivals`, are the results of `Gate.callAll`, which makes the calls one after the other in
this order (`Crowd.Follows`), and no `Crowd.Step` breaks a promise. So the calls of a crowd can be taken for
such calls, and what they come to does not depend on the order. An interleaving does not get stuck, for a
thread that waits has another one to wait for, and it ends, for `Crowd.remaining` decreases in every step.

## Contents
- `Gate.callAll_append_one`, `Gate.callAll_eq_unused_iff`, `Gate.callAll_congr`, `Tally.ofResults_perm`: calls
  one after the other.
- `Caller`, `Crowd`, `Crowd.Step`, `Crowd.Run`: the interleavings of the calls of a crowd.
- `Crowd.Follows`, `Crowd.Follows.step`, `Crowd.Run.follows`: promises are kept.
- `Crowd.Step.remaining_lt`, `Crowd.Follows.exists_step`: every interleaving comes to its end.
- `Gate.crowd_passes_once`: what all interleavings come to.
-/

namespace NetKit

/-! ## Calls one after the other -/

namespace Gate

variable {τ : Type} {start : Gate} {closure : Outcome}

theorem callAll_append_one (order : List τ) (t : τ) :
    start.callAll closure (order ++ [t]) =
      ((((start.callAll closure order).1.call closure).1),
        (start.callAll closure order).2 ++ [(t, ((start.callAll closure order).1.call closure).2)]) := by
  induction order generalizing start with
  | nil => rfl
  | cons t' order ih =>
      rw [List.cons_append, callAll, callAll]
      simp only [ih, List.cons_append]

/-- `callAll` leaves a gate unused only if there are no calls. -/
theorem callAll_eq_unused_iff {order : List τ} :
    (start.callAll closure order).1 = unused ↔ start = unused ∧ order = [] := by
  by_cases hstart : start = unused
  · subst hstart
    cases order with
    | nil => exact ⟨fun _ => ⟨rfl, rfl⟩, fun _ => rfl⟩
    | cons t order => rw [callAll_unused_cons]; constructor <;> rintro ⟨⟩; rename_i h; cases h
  · rw [callAll_of_used hstart]
    exact ⟨fun h => absurd h hstart, fun h => absurd h.1 hstart⟩

/-- A call executes the closure only if it is the first one, of an unused gate. -/
theorem exists_first_of_executed {order : List τ} {t : τ} {outcome : Outcome}
    (h : (t, true, outcome) ∈ (start.callAll closure order).2) :
    start = unused ∧ ∃ others, order = t :: others := by
  by_cases hstart : start = unused
  · subst hstart
    cases order with
    | nil => cases h
    | cons first others =>
        rw [callAll_unused_cons] at h
        rcases List.mem_cons.mp h with h | h
        · cases h
          exact ⟨rfl, others, rfl⟩
        · obtain ⟨other, -, hother⟩ := List.mem_map.mp h
          cases hother
  · rw [callAll_of_used hstart] at h
    obtain ⟨other, -, hother⟩ := List.mem_map.mp h
    cases hother

end Gate

/-- `callAll` does not depend on which threads make the calls. -/
theorem Gate.callAll_congr {τ σ : Type} (start : Gate) (closure : Outcome) {order : List τ}
    {order' : List σ} (h : order.length = order'.length) :
    (start.callAll closure order).1 = (start.callAll closure order').1 ∧
      Tally.ofResults (start.callAll closure order).2 =
        Tally.ofResults (start.callAll closure order').2 := by
  by_cases hstart : start = unused
  · subst hstart
    match order, order', h with
    | [], [], _ => exact ⟨rfl, rfl⟩
    | first :: others, first' :: others', h =>
        rw [callAll_unused_cons, callAll_unused_cons]
        exact ⟨rfl, Tally.ofResults_first_congr closure first first' (Nat.succ.inj h)⟩
  · rw [callAll_of_used hstart, callAll_of_used hstart, Tally.ofResults_idle,
      Tally.ofResults_idle, h]
    exact ⟨rfl, rfl⟩

/-- Every call ends in one of the three ways. -/
theorem Tally.total {τ : Type} (results : List (τ × Bool × Outcome)) :
    (ofResults results).oks + (ofResults results).errors + (ofResults results).panics =
      results.length := by
  induction results with
  | nil => rfl
  | cons r results ih =>
      obtain ⟨t, executed, outcome⟩ := r
      cases outcome <;> simp [ofResults, List.countP_cons] at ih ⊢ <;> omega

/-- `Tally.ofResults` does not depend on the order of the calls. -/
theorem Tally.ofResults_perm {τ : Type} {results results' : List (τ × Bool × Outcome)}
    (h : results.Perm results') : ofResults results = ofResults results' := by
  unfold ofResults
  simp only [h.countP_eq]

/-! ## Interleavings -/

/-- How far a thread has got with its call of a gate. -/
inductive Caller where
  /-- It has not reached the gate. -/
  | coming
  /-- It waits for the closure that another thread is executing. -/
  | waiting
  /-- It is executing the closure. -/
  | executing
  /-- It is past the gate, and knows how the closure has ended if it has executed it. -/
  | leaving (own : Option Outcome)
  /-- Its call has returned. -/
  | returned (executed : Bool) (outcome : Outcome)
  deriving DecidableEq, Repr

/-- The threads that call a gate, and those that have reached it, in the order in which they have. -/
structure Crowd (n : Nat) where
  gate : Gate
  callers : Table (Fin n) Caller
  arrivals : List (Fin n)

namespace Crowd

variable {n : Nat}

/-- No thread has reached the gate. -/
def initial (gate : Gate) (n : Nat) : Crowd n := ⟨gate, fun _ => .coming, []⟩

/-- All calls have returned. -/
def Finished (c : Crowd n) : Prop := ∀ t, ∃ executed outcome, c.callers t = .returned executed outcome

/-- `Tally.ofResults` of the calls that have returned. -/
def tally (c : Crowd n) : Tally :=
  Tally.ofResults ((List.finRange n).filterMap fun t =>
    match c.callers t with
    | .returned executed outcome => some (t, executed, outcome)
    | _ => none)

/-- One thread goes one step further, while the others stay where they are. -/
inductive Step (closure : Outcome) : Crowd n → Crowd n → Prop where
  /-- It is the first one to reach the gate. -/
  | start {c : Crowd n} {t : Fin n} (hcoming : c.callers t = .coming) (hgate : c.gate = .unused) :
      Step closure c ⟨.running, c.callers.set t .executing, c.arrivals ++ [t]⟩
  /-- It finds another one executing the closure. -/
  | wait {c : Crowd n} {t : Fin n} (hcoming : c.callers t = .coming) (hgate : c.gate = .running) :
      Step closure c ⟨.running, c.callers.set t .waiting, c.arrivals ++ [t]⟩
  /-- It finds the gate completed. -/
  | pass {c : Crowd n} {t : Fin n} {failed : Bool} (hcoming : c.callers t = .coming)
      (hgate : c.gate = .completed failed) :
      Step closure c ⟨.completed failed, c.callers.set t (.leaving none), c.arrivals ++ [t]⟩
  /-- It has waited until the gate was completed. -/
  | wake {c : Crowd n} {t : Fin n} {failed : Bool} (hwaiting : c.callers t = .waiting)
      (hgate : c.gate = .completed failed) :
      Step closure c ⟨.completed failed, c.callers.set t (.leaving none), c.arrivals⟩
  /-- It has executed the closure, which stores the failure flag and then completes the gate. Both are one
      step, as no other step reads the flag or finds the gate completed in between. -/
  | finish {c : Crowd n} {t : Fin n} (hexecuting : c.callers t = .executing) :
      Step closure c
        ⟨.completed closure.isFailure, c.callers.set t (.leaving (some closure)), c.arrivals⟩
  /-- Its call returns what it knows of the closure. -/
  | leave {c : Crowd n} {t : Fin n} {own : Option Outcome} (hleaving : c.callers t = .leaving own) :
      Step closure c ⟨c.gate, c.callers.set t (.returned own.isSome (own.getD .ok)), c.arrivals⟩

/-- An interleaving of `k` steps. -/
inductive Run (closure : Outcome) (c : Crowd n) : Nat → Crowd n → Prop where
  | refl : Run closure c 0 c
  | step {k : Nat} {c' c'' : Crowd n} (h : Run closure c k c') (hstep : Step closure c' c'') :
      Run closure c (k + 1) c''

end Crowd

/-! ## Promises -/

/-- What the call of a thread that has reached the gate comes to: whether it executes the closure, and its
    outcome. For a thread that is still `coming` this says nothing. -/
def Caller.promise (closure : Outcome) : Caller → Bool × Outcome
  | coming => (false, .ok)
  | waiting => (false, .ok)
  | executing => (true, closure)
  | leaving own => (own.isSome, own.getD .ok)
  | returned executed outcome => (executed, outcome)

namespace Crowd

variable {n : Nat} {start : Gate} {closure : Outcome} {c c' : Crowd n}

/-- `promise` of every thread that has reached the gate is its result in `callAll`, in the order of arrival. -/
structure Promised (start : Gate) (closure : Outcome) (callers : Table (Fin n) Caller)
    (arrivals : List (Fin n)) : Prop where
  nodup : arrivals.Nodup
  arrived : ∀ t, t ∈ arrivals ↔ callers t ≠ .coming
  results : (start.callAll closure arrivals).2 =
    arrivals.map fun t => (t, (callers t).promise closure)

namespace Promised

variable {callers : Table (Fin n) Caller} {arrivals : List (Fin n)} {t : Fin n} {caller : Caller}

/-- A thread that reaches the gate is promised the result of one more call. -/
theorem arrive (h : Promised start closure callers arrivals) (hcoming : callers t = .coming)
    (hcaller : caller ≠ .coming)
    (hpromise : ((start.callAll closure arrivals).1.call closure).2 = caller.promise closure) :
    Promised start closure (callers.set t caller) (arrivals ++ [t]) := by
  have hnew : t ∉ arrivals := fun ht => (h.arrived t).mp ht hcoming
  refine ⟨?_, ?_, ?_⟩
  · exact List.nodup_append.mpr ⟨h.nodup, List.nodup_singleton t, by
      rintro a ha b hb rfl
      exact hnew (List.mem_singleton.mp hb ▸ ha)⟩
  · intro t'
    by_cases ht : t' = t
    · subst ht
      simp [hcaller]
    · rw [Table.set_other _ _ ht, ← h.arrived t', List.mem_append, List.mem_singleton]
      exact or_iff_left ht
  · have hothers : ∀ t' ∈ arrivals, (t', (callers.set t caller t').promise closure) =
        (t', (callers t').promise closure) := by
      intro t' ht'
      have hne : t' ≠ t := fun heq => hnew (heq ▸ ht')
      rw [Table.set_other _ _ hne]
    rw [Gate.callAll_append_one, List.map_append, List.map_congr_left hothers, h.results, hpromise,
      List.map_singleton, Table.set_same]

/-- A thread that goes on keeps its `promise`. -/
theorem go_on (h : Promised start closure callers arrivals) (harrived : callers t ≠ .coming)
    (hcaller : caller ≠ .coming)
    (hpromise : (callers t).promise closure = caller.promise closure) :
    Promised start closure (callers.set t caller) arrivals := by
  refine ⟨h.nodup, ?_, ?_⟩
  · intro t'
    by_cases ht : t' = t
    · subst ht
      rw [Table.set_same]
      exact ⟨fun _ => hcaller, fun _ => (h.arrived t').mpr harrived⟩
    · rw [Table.set_other _ _ ht]
      exact h.arrived t'
  · rw [h.results]
    apply List.map_congr_left
    intro t' _
    by_cases ht : t' = t
    · subst ht
      rw [Table.set_same, hpromise]
    · rw [Table.set_other _ _ ht]

/-- The thread that executes the closure was the first one, and the gate was unused. -/
theorem first (h : Promised start closure callers arrivals)
    (hexecuted : ((callers t).promise closure).1 = true) :
    start = .unused ∧ ∃ others, arrivals = t :: others := by
  have harrived : callers t ≠ .coming := by
    intro hcoming
    rw [hcoming] at hexecuted
    cases hexecuted
  have hresult : (t, true, ((callers t).promise closure).2) ∈
      (start.callAll closure arrivals).2 := by
    rw [h.results, ← hexecuted]
    exact List.mem_map_of_mem ((h.arrived t).mpr harrived)
  exact Gate.exists_first_of_executed hresult

end Promised

/-- A crowd that is `Promised`, and whose gate is that of `callAll`, except while the closure is being
    executed. -/
structure Follows (start : Gate) (closure : Outcome) (c : Crowd n) : Prop where
  promised : Promised start closure c.callers c.arrivals
  gate : c.gate = .running ∨ c.gate = (start.callAll closure c.arrivals).1
  running : c.gate = .running → start = .running ∨ ∃ t, c.callers t = .executing
  executing : ∀ t, c.callers t = .executing → c.gate = .running

theorem follows_initial (start : Gate) (closure : Outcome) (n : Nat) :
    (initial start n).Follows start closure where
  promised := ⟨List.nodup_nil, fun t => by simp [initial], rfl⟩
  gate := .inr rfl
  running h := .inl h
  executing t h := by cases h

namespace Follows

/-- While a closure is being executed the gate has been used by some call. -/
theorem used_of_running (h : c.Follows start closure) (hrunning : c.gate = .running) :
    (start.callAll closure c.arrivals).1 ≠ .unused := by
  rw [ne_eq, Gate.callAll_eq_unused_iff]
  rintro ⟨hstart, hnone⟩
  rcases h.running hrunning with hstart' | ⟨t, ht⟩
  · rw [hstart] at hstart'
    cases hstart'
  · have hmem : t ∈ c.arrivals := (h.promised.arrived t).mpr (by rw [ht]; intro h; cases h)
    rw [hnone] at hmem
    cases hmem

theorem gate_of_ne_running (h : c.Follows start closure) (hgate : c.gate ≠ .running) :
    (start.callAll closure c.arrivals).1 = c.gate :=
  (h.gate.resolve_left hgate).symm

/-- Another thread than the one that moves is `executing` if it was. -/
theorem executing_of_set {t t' : Fin n} {caller : Caller} (hcaller : caller ≠ .executing)
    (ht' : c.callers.set t caller t' = .executing) : t' ≠ t ∧ c.callers t' = .executing := by
  by_cases ht : t' = t
  · subst ht
    rw [Table.set_same] at ht'
    exact absurd ht' hcaller
  · rw [Table.set_other _ _ ht] at ht'
    exact ⟨ht, ht'⟩

/-- While another thread is `executing` the gate is `running`. -/
theorem running_of_executing (h : c.Follows start closure) {t t' : Fin n} {caller : Caller}
    (hcaller : caller ≠ .executing) (ht' : c.callers.set t caller t' = .executing) :
    c.gate = .running :=
  h.executing t' (executing_of_set hcaller ht').2

/-- A thread that moves and was not `executing` leaves a `running` gate to the one that is. -/
theorem running_of_set (h : c.Follows start closure) {t : Fin n} (caller : Caller)
    (ht : c.callers t ≠ .executing) (hgate : c.gate = .running) :
    start = .running ∨ ∃ t', c.callers.set t caller t' = .executing := by
  rcases h.running hgate with hstart | ⟨t', ht'⟩
  · exact .inl hstart
  · have hne : t' ≠ t := fun heq => ht (heq ▸ ht')
    refine .inr ⟨t', ?_⟩
    rw [Table.set_other _ _ hne]
    exact ht'

/-- **`Step` keeps all promises.** -/
theorem step (h : c.Follows start closure) (hstep : c.Step closure c') :
    c'.Follows start closure := by
  cases hstep with
  | @start t hcoming hgate =>
      have hlast := h.gate_of_ne_running (by rw [hgate]; intro h; cases h)
      rw [hgate] at hlast
      refine ⟨h.promised.arrive hcoming (by intro h; cases h) ?_, .inl rfl, ?_, fun _ _ => rfl⟩
      · rw [hlast]; rfl
      · exact fun _ => .inr ⟨t, Table.set_same _ _ _⟩
  | @wait t hcoming hgate =>
      refine ⟨h.promised.arrive hcoming (by intro h; cases h) ?_, .inl rfl, ?_, fun _ _ => rfl⟩
      · rw [Gate.call_of_used (h.used_of_running hgate)]; rfl
      · exact fun _ => h.running_of_set .waiting (by rw [hcoming]; intro h; cases h) hgate
  | @pass t failed hcoming hgate =>
      have hlast := h.gate_of_ne_running (by rw [hgate]; intro h; cases h)
      rw [hgate] at hlast
      refine ⟨h.promised.arrive hcoming (by intro h; cases h) ?_, .inr ?_, ?_, ?_⟩
      · rw [hlast]; rfl
      · rw [Gate.callAll_append_one, hlast]; rfl
      · intro hrunning; cases hrunning
      · intro t' ht'
        rw [← hgate]
        exact h.running_of_executing (by intro h; cases h) ht'
  | @wake t failed hwaiting hgate =>
      have hlast := h.gate_of_ne_running (by rw [hgate]; intro h; cases h)
      refine ⟨h.promised.go_on ?_ (by intro h; cases h) ?_, .inr ?_, ?_, ?_⟩
      · rw [hwaiting]; intro h; cases h
      · rw [hwaiting]; rfl
      · rw [hlast, hgate]
      · intro hrunning; cases hrunning
      · intro t' ht'
        rw [← hgate]
        exact h.running_of_executing (by intro h; cases h) ht'
  | @finish t hexecuting =>
      obtain ⟨hstart, others, harrivals⟩ := h.promised.first (t := t) (by rw [hexecuting]; rfl)
      refine ⟨h.promised.go_on ?_ (by intro h; cases h) ?_, .inr ?_, ?_, ?_⟩
      · rw [hexecuting]; intro h; cases h
      · rw [hexecuting]; rfl
      · rw [harrivals, hstart, Gate.callAll_unused_cons]
      · intro hrunning; cases hrunning
      · intro t' ht'
        obtain ⟨hne, hold⟩ := executing_of_set (by intro h; cases h) ht'
        obtain ⟨-, others', harrivals'⟩ := h.promised.first (t := t') (by rw [hold]; rfl)
        rw [harrivals] at harrivals'
        exact absurd (List.cons.inj harrivals').1.symm hne
  | @leave t own hleaving =>
      refine ⟨h.promised.go_on ?_ (by intro h; cases h) ?_, h.gate, ?_, ?_⟩
      · rw [hleaving]; intro h; cases h
      · rw [hleaving]; rfl
      · exact h.running_of_set _ (by rw [hleaving]; intro h; cases h)
      · intro t' ht'
        exact h.running_of_executing (by intro h; cases h) ht'

end Follows

theorem Run.follows {k : Nat} (h : Run closure (initial start n) k c) : c.Follows start closure := by
  induction h with
  | refl => exact follows_initial start closure n
  | step _ hstep ih => exact ih.step hstep

end Crowd

/-! ## Every interleaving comes to its end -/

/-- How many steps a thread may still take. -/
def Caller.remaining : Caller → Nat
  | coming => 3
  | waiting => 2
  | executing => 2
  | leaving _ => 1
  | returned _ _ => 0

namespace Crowd

variable {n : Nat} {start : Gate} {closure : Outcome} {c c' : Crowd n}

/-- The sum of `Caller.remaining`. -/
def remaining (c : Crowd n) : Nat := ∑ t, (c.callers t).remaining

theorem remaining_initial (start : Gate) (n : Nat) : (initial start n).remaining = 3 * n := by
  simp [remaining, initial, Caller.remaining, Nat.mul_comm]

/-- `Step` is one of one thread, which has fewer steps before it then. -/
theorem Step.exists_thread (h : c.Step closure c') : ∃ t caller,
    c'.callers = c.callers.set t caller ∧ caller.remaining < (c.callers t).remaining := by
  cases h with
  | @start t hcoming _ => exact ⟨t, _, rfl, by rw [hcoming]; decide⟩
  | @wait t hcoming _ => exact ⟨t, _, rfl, by rw [hcoming]; decide⟩
  | @pass t _ hcoming _ => exact ⟨t, _, rfl, by rw [hcoming]; decide⟩
  | @wake t _ hwaiting _ => exact ⟨t, _, rfl, by rw [hwaiting]; decide⟩
  | @finish t hexecuting => exact ⟨t, _, rfl, by rw [hexecuting]; exact Nat.lt_succ_self 1⟩
  | @leave t own hleaving => exact ⟨t, _, rfl, by rw [hleaving]; exact Nat.lt_succ_self 0⟩

theorem Step.remaining_lt (h : c.Step closure c') : c'.remaining < c.remaining := by
  obtain ⟨t, caller, hcallers, hlt⟩ := h.exists_thread
  unfold remaining
  rw [hcallers]
  apply Finset.sum_lt_sum
  · intro t' _
    by_cases ht : t' = t
    · subst ht
      rw [Table.set_same]
      exact Nat.le_of_lt hlt
    · rw [Table.set_other _ _ ht]
  · exact ⟨t, Finset.mem_univ t, by rwa [Table.set_same]⟩

theorem Run.add_remaining_le {k : Nat} (h : Run closure c k c') :
    k + c'.remaining ≤ c.remaining := by
  induction h with
  | refl => rw [Nat.zero_add]
  | step _ hstep ih =>
      have hlt := hstep.remaining_lt
      omega

/-- **As long as a call has not returned, some thread can go on.** -/
theorem Follows.exists_step (h : c.Follows start closure) (hstart : start ≠ .running)
    (hfinished : ¬c.Finished) : ∃ c', c.Step closure c' := by
  obtain ⟨t, ht⟩ := not_forall.mp hfinished
  have hexecuting : c.gate = .running → ∃ t', c.callers t' = .executing :=
    fun hgate => (h.running hgate).resolve_left hstart
  cases hcaller : c.callers t with
  | coming =>
      cases hgate : c.gate with
      | unused => exact ⟨_, .start hcaller hgate⟩
      | running => exact ⟨_, .wait hcaller hgate⟩
      | completed failed => exact ⟨_, .pass hcaller hgate⟩
  | waiting =>
      cases hgate : c.gate with
      | unused =>
          -- nobody waits for a gate that nobody has reached
          have hlast := h.gate_of_ne_running (by rw [hgate]; intro h; cases h)
          have hnone := (Gate.callAll_eq_unused_iff.mp (hlast.trans hgate)).2
          have hmem := (h.promised.arrived t).mpr (by rw [hcaller]; intro h; cases h)
          rw [hnone] at hmem
          cases hmem
      | running =>
          obtain ⟨t', ht'⟩ := hexecuting hgate
          exact ⟨_, .finish ht'⟩
      | completed failed => exact ⟨_, .wake hcaller hgate⟩
  | executing => exact ⟨_, .finish hcaller⟩
  | leaving own => exact ⟨_, .leave hcaller⟩
  | returned executed outcome => exact absurd ⟨executed, outcome, hcaller⟩ ht

/-! ## Crowds whose calls have all returned -/

/-- A call has returned what was promised. -/
theorem Finished.callers_eq (h : c.Finished) (closure : Outcome) (t : Fin n) : c.callers t =
    .returned ((c.callers t).promise closure).1 ((c.callers t).promise closure).2 := by
  obtain ⟨executed, outcome, ht⟩ := h t
  rw [ht]
  rfl

namespace Follows

variable (h : c.Follows start closure) (hfinished : c.Finished)

include h hfinished

theorem mem_arrivals (t : Fin n) : t ∈ c.arrivals := by
  rw [h.promised.arrived t]
  obtain ⟨executed, outcome, ht⟩ := hfinished t
  rw [ht]
  intro h
  cases h

theorem arrivals_perm : (List.finRange n).Perm c.arrivals :=
  (List.perm_ext_iff_of_nodup (List.nodup_finRange n) h.promised.nodup).mpr fun t =>
    ⟨fun _ => h.mem_arrivals hfinished t, fun _ => List.mem_finRange t⟩

theorem length_arrivals : c.arrivals.length = n := by
  rw [← (h.arrivals_perm hfinished).length_eq, List.length_finRange]

/-- The gate is that of `callAll`. -/
theorem gate_of_finished : c.gate = (start.callAll closure c.arrivals).1 := by
  rcases h.gate with hrunning | hgate
  · rcases h.running hrunning with hstart | ⟨t, ht⟩
    · rw [hrunning, hstart, Gate.callAll_of_used (by intro h; cases h)]
    · obtain ⟨executed, outcome, ht'⟩ := hfinished t
      rw [ht] at ht'
      cases ht'
  · exact hgate

/-- `tally` is that of `callAll`. -/
theorem tally_of_finished : c.tally = Tally.ofResults (start.callAll closure c.arrivals).2 := by
  have hreturned : ((List.finRange n).filterMap fun t =>
      match c.callers t with
      | .returned executed outcome => some (t, executed, outcome)
      | _ => none) = (List.finRange n).map fun t => (t, (c.callers t).promise closure) := by
    rw [← List.filterMap_eq_map]
    apply List.filterMap_congr
    intro t _
    rw [hfinished.callers_eq closure t]
    rfl
  unfold tally
  rw [hreturned, h.promised.results]
  exact Tally.ofResults_perm ((h.arrivals_perm hfinished).map _)

/-- The results of `callAll`, in the order of arrival, are those of the threads. -/
theorem mem_results {t : Fin n} {executed : Bool} {outcome : Outcome}
    (ht : (t, executed, outcome) ∈ (start.callAll closure c.arrivals).2) :
    c.callers t = .returned executed outcome := by
  rw [h.promised.results] at ht
  obtain ⟨t', -, heq⟩ := List.mem_map.mp ht
  obtain ⟨rfl, hpromise⟩ := Prod.mk.inj heq
  rw [hfinished.callers_eq closure, hpromise]

/-- **One thread passes an unused gate**, the first one that has reached it, and has the outcome of the
    closure. -/
theorem first_of_unused (hstart : start = .unused) (hn : 1 ≤ n) :
    c.gate = .completed closure.isFailure ∧ c.tally.runs = 1 ∧
      c.tally.errors + c.tally.panics = closure.isFailure.toNat ∧
      ∃ first, c.arrivals.head? = some first ∧ ∀ t, c.callers t =
        if t = first then .returned true closure else .returned false .ok := by
  have hgate := h.gate_of_finished hfinished
  have htally := h.tally_of_finished hfinished
  have hlength := h.length_arrivals hfinished
  obtain ⟨first, others, harrivals⟩ : ∃ first others, c.arrivals = first :: others :=
    List.exists_cons_of_ne_nil (List.ne_nil_of_length_pos (by omega))
  have hresults : (start.callAll closure c.arrivals).2 =
      (first, true, closure) :: others.map fun t => (t, false, .ok) := by
    rw [hstart, harrivals, Gate.callAll_unused_cons]
  obtain ⟨hruns, hfailures⟩ := Tally.ofResults_first closure first others
  refine ⟨?_, ?_, ?_, first, by rw [harrivals]; rfl, fun t => ?_⟩
  · rw [hgate, hstart, harrivals, Gate.callAll_unused_cons]
  · rw [htally, hresults, hruns]
  · rw [htally, hresults, hfailures]
  · have ht := h.mem_arrivals hfinished t
    split
    · rename_i heq
      subst heq
      exact h.mem_results hfinished (by rw [hresults]; exact List.mem_cons_self)
    · rename_i hne
      rw [harrivals] at ht
      have hother : t ∈ others := (List.mem_cons.mp ht).resolve_left hne
      exact h.mem_results hfinished
        (by rw [hresults]; exact List.mem_cons_of_mem _ (List.mem_map_of_mem hother))

/-- Nobody executes the closure of a used gate. -/
theorem idle_of_used (hstart : start ≠ .unused ∨ n = 0) :
    c.gate = start ∧ c.tally = ⟨0, n, 0, 0⟩ ∧ ∀ t, c.callers t = .returned false .ok := by
  have hcalls : start.callAll closure c.arrivals =
      (start, c.arrivals.map fun t => (t, false, .ok)) := by
    rcases hstart with hused | hnone
    · exact Gate.callAll_of_used hused closure c.arrivals
    · have hlength := (h.length_arrivals hfinished).trans hnone
      rw [List.eq_nil_of_length_eq_zero hlength]
      rfl
  refine ⟨?_, ?_, fun t => ?_⟩
  · rw [h.gate_of_finished hfinished, hcalls]
  · rw [h.tally_of_finished hfinished, hcalls, Tally.ofResults_idle, h.length_arrivals hfinished]
  · exact h.mem_results hfinished
      (by rw [hcalls]; exact List.mem_map_of_mem (h.mem_arrivals hfinished t))

/-- Every call is counted. -/
theorem total_of_finished : c.tally.oks + c.tally.errors + c.tally.panics = n := by
  rw [h.tally_of_finished hfinished, Tally.total, h.promised.results, List.length_map,
    h.length_arrivals hfinished]

end Follows

end Crowd

/-! ## What all interleavings come to -/

/-- **One thread of a crowd executes the closure, and only this one has its outcome**, in whatever order the
threads go on. Unless the gate is in use beforehand, no interleaving gets stuck, and none takes more than
three steps a thread. Once all calls have returned, an unused gate has been passed by the thread that was
the first to reach it, while all others, those that had to wait included, succeed and know nothing of a
failure; a completed gate has been passed by nobody. So it is as if the calls were made one after the
other. -/
theorem Gate.crowd_passes_once (start : Gate) (n : Nat) (ending : Ending) :
    (∀ k c, Crowd.Run ending.outcome (.initial start n) k c →
      k ≤ 3 * n ∧ (start ≠ .running → c.Finished ∨ ∃ c', c.Step ending.outcome c')) ∧
    ∀ k c, Crowd.Run ending.outcome (.initial start n) k c → c.Finished →
      (start = .unused → 1 ≤ n →
        (∃ first, c.arrivals.head? = some first ∧ ∀ t, c.callers t =
          if t = first then .returned true ending.outcome else .returned false .ok) ∧
        c.tally.runs = 1 ∧ c.tally.oks + c.tally.errors + c.tally.panics = n ∧
        c.tally.errors + c.tally.panics = ending.outcome.isFailure.toNat ∧
        c.gate = .completed ending.outcome.isFailure) ∧
      (start.isCompleted = true ∨ n = 0 →
        c.tally = ⟨0, n, 0, 0⟩ ∧ c.gate = start ∧ ∀ t, c.callers t = .returned false .ok) ∧
      ∀ {τ : Type} (order : List τ), order.length = n →
        (start.callAll ending.outcome order).1 = c.gate ∧
          Tally.ofResults (start.callAll ending.outcome order).2 = c.tally := by
  refine ⟨fun k c hrun => ⟨?_, fun hstart => ?_⟩, fun k c hrun hfinished => ⟨?_, ?_, ?_⟩⟩
  · have hsteps := hrun.add_remaining_le
    rw [Crowd.remaining_initial] at hsteps
    omega
  · by_cases hfinished : c.Finished
    · exact .inl hfinished
    · exact .inr (hrun.follows.exists_step hstart hfinished)
  · intro hstart hn
    obtain ⟨hgate, hruns, hfailures, hfirst⟩ := hrun.follows.first_of_unused hfinished hstart hn
    exact ⟨hfirst, hruns, hrun.follows.total_of_finished hfinished, hfailures, hgate⟩
  · intro hstart
    have hused : start ≠ .unused ∨ n = 0 := by
      refine hstart.imp_left fun hcompleted hunused => ?_
      rw [hunused] at hcompleted
      cases hcompleted
    obtain ⟨hgate, htally, hcallers⟩ := hrun.follows.idle_of_used hfinished hused
    exact ⟨htally, hgate, hcallers⟩
  · intro τ order horder
    obtain ⟨hgate, htally⟩ := Gate.callAll_congr start ending.outcome
      (horder.trans (hrun.follows.length_arrivals hfinished).symm)
    exact ⟨hgate.trans (hrun.follows.gate_of_finished hfinished).symm,
      htally.trans (hrun.follows.tally_of_finished hfinished).symm⟩

/-- Three threads call a gate with a closure that fails. The last one is the first to reach it; the first
one comes while the closure is being executed, and the second one when it has failed. -/
theorem Gate.crowd_passes_once_waiting : ∃ c : Crowd 3,
    Crowd.Run (.error "no route".toList) (.initial .unused 3) 8 c ∧ c.Finished ∧
      c.arrivals = [2, 0, 1] ∧
      (∀ t, c.callers t =
        if t = 2 then .returned true (.error "no route".toList) else .returned false .ok) ∧
      c.tally.runs = 1 ∧ c.tally.oks + c.tally.errors + c.tally.panics = 3 ∧
      c.tally.errors + c.tally.panics = 1 ∧ c.gate = .completed true := by
  obtain ⟨c, hrun, hfinished, harrivals⟩ : ∃ c : Crowd 3,
      Crowd.Run (.error "no route".toList) (.initial .unused 3) 8 c ∧ c.Finished ∧
        c.arrivals = [2, 0, 1] := by
    refine ⟨_, .step (.step (.step (.step (.step (.step (.step (.step .refl
      (.start (t := 2) rfl rfl)) (.wait (t := 0) rfl rfl)) (.finish (t := 2) rfl))
      (.pass (t := 1) rfl rfl)) (.wake (t := 0) rfl rfl)) (.leave (t := 2) rfl))
      (.leave (t := 0) rfl)) (.leave (t := 1) rfl), fun t => ?_, rfl⟩
    match t with
    | 0 => exact ⟨_, _, rfl⟩
    | 1 => exact ⟨_, _, rfl⟩
    | 2 => exact ⟨_, _, rfl⟩
  obtain ⟨-, hdone⟩ := Gate.crowd_passes_once .unused 3 (.error "no route".toList)
  obtain ⟨hunused, -, -⟩ := hdone 8 c hrun hfinished
  obtain ⟨⟨first, hfirst, hcallers⟩, hruns, htotal, hfailures, hgate⟩ := hunused rfl (by decide)
  rw [harrivals] at hfirst
  cases hfirst
  exact ⟨c, hrun, hfinished, harrivals, hcallers, hruns, htotal, hfailures, hgate⟩

end NetKit
